import OnePloy.ComputeServers
import OnePloy.ComputeStatements

/-!
# No node is oversold

After a placement on a node the active reservations of the node fit the
snapshot the placement used, and they keep doing so as long as no later
placement on the node uses a larger one (`claimed_le_snapshot`).

What a scan has in hand when it is done covers every reservation that was
active on its nodes at the clock it read (`Scheduling.Sound`): new ones need
the node, which it holds. The exception is a reservation that is consumed
after it has expired by that clock. `consume` tests the expiry before its
update, and in between a scan with a later clock passes the row by. `settled`
rules that out, and with it the one way a request for no GPU gets past an
overdrawn node.
-/

namespace OnePloy

open Conc

/-! ## Settled runs -/

/-- The last placement on a node. -/
def ComputeStore.lastPlacement (s : ComputeStore) (nodeId : Nat) : Option Placement :=
  s.placements.find? fun p => p.nodeId == nodeId

/-- A scan of the node that takes what expired at `e` for free. -/
def Scheduling.passes (nodeId e : Nat) : Scheduling → Bool
  | .scanning _ now _ fresh _ _ => fresh.any (fun q => q.1 == nodeId) && decide (e ≤ now)
  | _ => false

/-- Nobody has taken the reservation for expired: neither the last placement on
its node nor a scan under way. -/
def notPassed (w : World ComputeStore Scheduling) (r : WorkloadReservation) : Bool :=
  match r.computeNodeId, r.expiresAt with
  | some n, some e => (w.db.lastPlacement n).all (fun p => decide (p.now < e)) &&
      w.procs.all fun l => !l.passes n e
  | _, _ => true

/-- A reservation is consumed only when nobody has taken it for expired, and a
request for no GPU is placed only where the GPUs in use fit the snapshot. -/
def settled (w : World ComputeStore Scheduling) : Action Scheduling Turn ComputeEnv → Bool
  | .run i .next =>
      match w.procs[i]? with
      | some (.endingLocked (.consume _) _ id) =>
          (w.db.db.reservations.get? id).all (notPassed w)
      | some (.scanning req _ _ fresh [] got) =>
          (selectCandidate (candidates fresh req.requirements.vector (claimedResources got))).all
            fun c => req.requirements.vector .gpu != 0 ||
              decide (claimedResources got c.nodeId .gpu ≤ c.snapshot.availableResources .gpu)
      | _ => true
  | _ => true

/-! ## Assertions -/

/-- What holds between two statements of a call. -/
def Scheduling.Sound : Scheduling → ComputeStore → Prop
  | .admitted _ now, s => now ≤ s.clock
  | .lockingNodes _ now _ _, s => now ≤ s.clock
  | .poolsLoaded _ now nodes eligible, s => now ≤ s.clock ∧ ∀ n ∈ eligible, n ∈ nodes
  | .snapshotsLocked _ now locked fresh, s =>
      now ≤ s.clock ∧ ∀ q ∈ fresh, ComputeRow.node q.1 ∈ locked
  | .scanning _ now locked fresh todo got, s =>
      now ≤ s.clock ∧ (∀ q ∈ fresh, ComputeRow.node q.1 ∈ locked) ∧
        ∀ i r, s.db.reservations.get? i = some r → onFresh fresh now i r = true →
          i ∈ todo ∨ ∃ r', (i, r') ∈ got ∧ r'.computeNodeId = r.computeNodeId ∧
            r'.requested = r.requested
  | .endingLocked (.consume _) _ id, s =>
      ∃ r, s.db.reservations.get? id = some r ∧ r.status = .reserved
  | _, _ => True

/-- At the clock it read, the last placement on a node left the claims within
the snapshot it used. -/
structure Fits (s : ComputeStore) : Prop where
  past : ∀ p ∈ s.placements, p.now ≤ s.clock
  last : ∀ n p, s.lastPlacement n = some p → s.db.claimed p.now n ≤ p.capacity

def placementAssertions : Machine.Assertions ComputeStore Scheduling where
  store := Fits
  at_ := Scheduling.Sound

variable {cfg : SchedulerConfig} {s s' : ComputeStore}

/-- A finished scan has every claim on its nodes. -/
theorem claimed_le_got {req : PlacementRequest} {now : Nat} {locked : List ComputeRow}
    {fresh : List (Nat × (Nat × CapacitySnapshot))} {got : List (Nat × WorkloadReservation)}
    {n : Nat} {q : Nat × CapacitySnapshot}
    (h : (Scheduling.scanning req now locked fresh [] got).Sound s) (hn : (n, q) ∈ fresh) :
    s.db.claimed now n ≤ claimedResources got n := by
  refine Table.sumWhere_le_of_cover fun i r hget hc => ?_
  have hon : onFresh fresh now i r = true := List.any_eq_true.mpr ⟨(n, q), hn, hc⟩
  rcases h.2.2 i r hget hon with hnil | ⟨r', hgot, hnode, hreq⟩
  · cases hnil
  · simp only [claims, Bool.and_eq_true, beq_iff_eq] at hc
    exact ⟨r', List.mem_filter.mpr ⟨hgot, by simp [hnode, hc.1]⟩, le_of_eq hreq.symm⟩

theorem lastPlacement_cons (p : Placement) (n : Nat) :
    ({ s with placements := p :: s.placements } : ComputeStore).lastPlacement n
      = if p.nodeId = n then some p else s.lastPlacement n := by
  by_cases h : p.nodeId = n
  · simp [ComputeStore.lastPlacement, h]
  · simp [ComputeStore.lastPlacement, h]

/-- A settled placement fits the snapshot it uses. -/
theorem Fits.place {req : PlacementRequest} {now : Nat} {locked : List ComputeRow}
    {fresh : List (Nat × (Nat × CapacitySnapshot))} {got : List (Nat × WorkloadReservation)}
    {c : Candidate} (hs : Fits s)
    (hat : (Scheduling.scanning req now locked fresh [] got).Sound s)
    (hc : selectCandidate (candidates fresh req.requirements.vector (claimedResources got))
      = some c)
    (hgpu : req.requirements.vector .gpu = 0 →
      claimedResources got c.nodeId .gpu ≤ c.snapshot.availableResources .gpu) :
    Fits (s.placeSelected cfg req now (some c)) := by
  obtain ⟨hfresh, hroom⟩ := selected_of_fresh hc
  have hgot := claimed_le_got hat hfresh
  refine ⟨fun p hp => ?_, fun n p hp => ?_⟩
  · rcases List.mem_cons.mp hp with rfl | hp
    · exact hat.1
    · exact hs.past p hp
  · rw [show (s.placeSelected cfg req now (some c)).lastPlacement n = _ from
      lastPlacement_cons (s := { s with db := s.db.place cfg now req c }) _ n] at hp
    split at hp
    · next hn =>
        obtain rfl := Option.some.inj hp
        obtain rfl : c.nodeId = n := hn
        show (s.db.place cfg now req c).claimed now c.nodeId ≤ c.snapshot.availableResources
        rw [claimed_place, if_pos rfl]
        intro r
        have hr := hroom r
        have hgotr : s.db.claimed now c.nodeId r ≤ claimedResources got c.nodeId r := hgot r
        simp only [Pi.add_apply]
        -- where something is asked for there was room; no GPU may be asked for
        by_cases hzero : req.requirements.vector r = 0
        · have hr_gpu : r = .gpu := by
            by_contra hne
            have hpos := req.requirements.positive r hne
            omega
          subst hr_gpu
          have hfit := hgpu hzero
          omega
        · omega
    · next hn =>
        show (s.db.place cfg now req c).claimed p.now n ≤ p.capacity
        rw [claimed_place_ne _ _ _ _ _ _ (Ne.symm hn)]
        exact hs.last n p hp

/-- A change that adds no claims for the last placements keeps the fit. -/
theorem Fits.of_claimed_le {db' : ComputeDb} (hs : Fits s)
    (hle : ∀ n p, s.lastPlacement n = some p → db'.claimed p.now n ≤ s.db.claimed p.now n) :
    Fits { s with db := db' } where
  past := hs.past
  last n p hp := le_trans (hle n p hp) (hs.last n p hp)

/-! ## What each write does to the others -/

/-- A scan survives a change of one reservation that stays on its node and
that is not activated for the scan. -/
theorem Scheduling.Sound.update {m : Scheduling} {id : Nat}
    {f : WorkloadReservation → WorkloadReservation}
    (hnode : ∀ r, (f r).computeNodeId = r.computeNodeId)
    (hreq : ∀ r, (f r).requested = r.requested) (h : m.Sound s)
    (hlock : ComputeRow.reservation id ∉ m.held)
    (hact : ∀ r req now locked fresh todo got, s.db.reservations.get? id = some r →
      m = .scanning req now locked fresh todo got → onFresh fresh now id (f r) = true →
      onFresh fresh now id r = true) :
    m.Sound { s with db := s.db.updateReservation id f } := by
  cases m with
  | scanning req now locked fresh todo got =>
      refine ⟨h.1, h.2.1, fun i r hget hon => ?_⟩
      rw [show (s.db.updateReservation id f).reservations.get? i = _ from
        Table.get?_modify ..] at hget
      split at hget
      · next hi =>
          subst hi
          obtain ⟨r₀, hr₀, rfl⟩ := Option.map_eq_some_iff.mp hget
          rw [hnode, hreq]
          exact h.2.2 i r₀ hr₀ (hact r₀ _ _ _ _ _ _ hr₀ rfl hon)
      · exact h.2.2 i r hget hon
  | endingLocked e teamId j =>
      cases e with
      | release => trivial
      | consume workloadReference =>
          obtain ⟨r, hget, hs⟩ := h
          have hne : j ≠ id := by
            rintro rfl
            exact hlock (by simp [Scheduling.held])
          exact ⟨r, (Table.get?_modify_ne f hne).trans hget, hs⟩
  | _ => exact h

/-- A placement is on a node that the scheduler holds, so no other scan has it. -/
theorem Scheduling.Sound.place {m : Scheduling} {req : PlacementRequest} {now : Nat}
    {c : Candidate} (h : m.Sound s) (hlock : ComputeRow.node c.nodeId ∉ m.held) :
    m.Sound (s.placeSelected cfg req now (some c)) := by
  cases m with
  | scanning req' now' locked fresh todo got =>
      refine ⟨h.1, h.2.1, fun i r hget hon => ?_⟩
      rw [show (s.placeSelected cfg req now (some c)).db.reservations.get? i = _ from
        Table.get?_insert ..] at hget
      split at hget
      · obtain rfl := Option.some.inj hget
        obtain ⟨q, hq, hclaim⟩ := List.any_eq_true.mp hon
        simp only [claims, newWorkloadReservation, Bool.and_eq_true, beq_iff_eq] at hclaim
        have hheld : ComputeRow.node q.1 ∈ (scanning req' now' locked fresh todo got).held :=
          List.mem_append_left _ (h.2.1 q hq)
        rw [← Option.some.inj hclaim.1] at hheld
        exact absurd hheld hlock
      · exact h.2.2 i r hget hon
  | endingLocked e teamId id =>
      cases e with
      | release => trivial
      | consume workloadReference =>
          obtain ⟨r, hget, hs⟩ := h
          exact ⟨r, Table.get?_insert_of_some _ hget, hs⟩
  | _ => exact h

/-- A reservation that nobody has taken for expired is active for the last
placement on its node and for every scan of it. -/
theorem active_of_notPassed {w : World ComputeStore Scheduling} {r : WorkloadReservation}
    {n : Nat} (hs : r.status = .reserved) (hn : r.computeNodeId = some n)
    (h : notPassed w r = true) :
    (∀ p, w.db.lastPlacement n = some p → r.isActive p.now = true) ∧
      ∀ req now locked fresh todo got,
        .scanning req now locked fresh todo got ∈ w.procs →
        (∃ q ∈ fresh, q.1 = n) → r.isActive now = true := by
  cases he : r.expiresAt with
  | none => simp [WorkloadReservation.isActive, hs, he]
  | some e =>
      simp only [notPassed, hn, he, Bool.and_eq_true, List.all_eq_true] at h
      refine ⟨fun p hp => ?_, fun req now locked fresh todo got hm hq => ?_⟩
      · have hlt := h.1
        rw [hp, Option.all_some] at hlt
        simpa [WorkloadReservation.isActive, hs, he] using hlt
      · have hpass := h.2 _ hm
        have hany : fresh.any (fun q => q.1 == n) = true := by
          obtain ⟨q, hq, hqn⟩ := hq
          exact List.any_eq_true.mpr ⟨q, hq, by simpa using hqn⟩
        simp only [Scheduling.passes, hany, Bool.true_and, Bool.not_eq_true',
          decide_eq_false_iff_not, not_le] at hpass
        simp [WorkloadReservation.isActive, hs, he, hpass]

/-- What the environment changes: the clock goes up, placements stay, and of
the reservations only lapsed ones are touched. -/
theorem env_cases {e : ComputeEnv} (h : s.env cfg e = some s') :
    s'.placements = s.placements ∧ s.clock ≤ s'.clock ∧
      (s'.db.reservations = s.db.reservations ∨
        ∃ at', e = .expire at' ∧ s'.db = s.db.expire at') := by
  cases e with
  | pass seconds =>
      obtain rfl := Option.some.inj h
      exact ⟨rfl, Nat.le_add_right .., Or.inl rfl⟩
  | expire at' =>
      simp only [ComputeStore.env] at h
      split at h
      · obtain rfl := Option.some.inj h
        exact ⟨rfl, le_rfl, Or.inr ⟨at', rfl, rfl⟩⟩
      · cases h
  | capture nodeId probe at' =>
      simp only [ComputeStore.env] at h
      split at h
      · obtain rfl := Option.some.inj h
        exact ⟨rfl, le_rfl, Or.inl (capture_cases s.db cfg at' nodeId probe).1.reservations⟩
      · cases h
  | register reg =>
      obtain rfl := Option.some.inj h
      exact ⟨rfl, le_rfl, Or.inl (register_extends s.db reg).1.reservations⟩
  | setDraining serverId poolSlug isDraining =>
      obtain rfl := Option.some.inj h
      refine ⟨rfl, le_rfl, Or.inl ?_⟩
      cases hres : s.db.setDraining serverId poolSlug isDraining with
      | error e => rfl
      | ok db' => exact (setDraining_extends hres).1.reservations
  | setTenantActive teamId isTenantActive =>
      obtain rfl := Option.some.inj h
      exact ⟨rfl, le_rfl, Or.inl rfl⟩

theorem Fits.env {e : ComputeEnv} (hs : Fits s) (h : s.env cfg e = some s') : Fits s' := by
  obtain ⟨hplace, hclock, hres⟩ := env_cases h
  refine ⟨fun p hp => le_trans (hs.past p (hplace ▸ hp)) hclock, fun n p hp => ?_⟩
  have hlast : s.lastPlacement n = some p := by
    rwa [ComputeStore.lastPlacement, hplace] at hp
  refine le_trans ?_ (hs.last n p hlast)
  rcases hres with hres | ⟨at', -, hdb⟩
  · rw [ComputeDb.claimed, hres]
    exact le_rfl
  · rw [hdb]
    exact claimed_expire _ _ _ n

theorem Scheduling.Sound.env {m : Scheduling} {e : ComputeEnv} (hat : m.Sound s)
    (h : s.env cfg e = some s') (hlock : ∀ r ∈ s.envNeeds cfg e, r ∉ m.held) : m.Sound s' := by
  obtain ⟨-, hclock, hres⟩ := env_cases h
  -- the rows that are still there are the old ones, or have just expired
  have hrow : ∀ i r, s'.db.reservations.get? i = some r →
      s.db.reservations.get? i = some r ∨ ∃ r₀ : WorkloadReservation, r = r₀.expired := by
    intro i r hget
    rcases hres with hres | ⟨at', -, hdb⟩
    · exact Or.inl (hres ▸ hget)
    · rw [hdb, show (s.db.expire at').reservations.get? i = _ from
        Table.get?_updateWhere ..] at hget
      obtain ⟨r₀, hr₀, rfl⟩ := Option.map_eq_some_iff.mp hget
      split
      · exact Or.inr ⟨r₀, rfl⟩
      · exact Or.inl hr₀
  cases m with
  | admitted req now => exact le_trans hat hclock
  | lockingNodes req now todo nodes => exact le_trans hat hclock
  | poolsLoaded req now nodes eligible => exact ⟨le_trans hat.1 hclock, hat.2⟩
  | snapshotsLocked req now locked fresh => exact ⟨le_trans hat.1 hclock, hat.2⟩
  | scanning req now locked fresh todo got =>
      refine ⟨le_trans hat.1 hclock, hat.2.1, fun i r hget hon => ?_⟩
      rcases hrow i r hget with hold | ⟨r₀, rfl⟩
      · exact hat.2.2 i r hold hon
      · simp [onFresh, claims, WorkloadReservation.expired, WorkloadReservation.isActive] at hon
  | endingLocked e' teamId id =>
      cases e' with
      | release => trivial
      | consume workloadReference =>
          obtain ⟨r, hget, hs⟩ := hat
          refine ⟨r, ?_, hs⟩
          rcases hres with hres | ⟨at', rfl, hdb⟩
          · rw [hres, hget]
          · have hkept : r.lapsed at' = false := by
              by_contra hl
              refine hlock (.reservation id) ?_ (by simp [Scheduling.held])
              exact List.mem_map.mpr ⟨(id, r), Table.mem_select.mpr ⟨hget, by simpa using hl⟩, rfl⟩
            rw [hdb, show (s.db.expire at').reservations.get? id = _ from
              Table.get?_updateWhere .., hget]
            simp [hkept]
  | _ => trivial

/-! ## Every interleaving -/

section Run

variable {w : World ComputeStore Scheduling} {i : Nat} {a : Turn} {l₁ l₂ m : Scheduling}

/-- The update that ends a reservation, in a settled step: it claims nothing
more for the last placement on a node or for another scan. -/
theorem end_settled {e : Ending} {teamId id : Nat}
    (hw : (scheduling cfg).Good placementAssertions w)
    (hi : w.procs[i]? = some (.endingLocked e teamId id))
    (hok : settled w (.run i .next) = true) :
    Fits (w.db.endReservation teamId id e) ∧
      ∀ m ∈ w.procs, m.Sound w.db → ComputeRow.reservation id ∉ m.held →
        m.Sound (w.db.endReservation teamId id e) := by
  have hfits : Fits w.db := hw.store
  cases e with
  | release =>
      refine ⟨hfits.of_claimed_le fun n p _ => claimed_release _ _ _ _ n,
        fun m _ hm hlock => hm.update (fun _ => rfl) (fun _ => rfl) hlock ?_⟩
      intro r req now locked fresh todo got _ _ hon
      simp [onFresh, claims, WorkloadReservation.released, WorkloadReservation.isActive] at hon
  | consume workloadReference =>
      obtain ⟨r, hget, hs⟩ : ∃ r, w.db.db.reservations.get? id = some r ∧ r.status = .reserved :=
        hw.at_ hi
      have hnot : notPassed w r = true := by
        simpa [settled, hi, hget] using hok
      simp only [ComputeStore.endReservation]
      split
      · exact ⟨hfits, fun m _ hm _ => hm⟩
      · refine ⟨hfits.of_claimed_le fun n p hp => claimed_consume hget fun hn =>
          (active_of_notPassed hs hn hnot).1 p hp,
          fun m hmem hm hlock => hm.update (fun _ => rfl) (fun _ => rfl) hlock ?_⟩
        rintro r' req now locked fresh todo got hr' rfl hon
        obtain rfl := Option.some.inj (hr'.symm.trans hget)
        obtain ⟨q, hq, hclaim⟩ := List.any_eq_true.mp hon
        simp only [claims, Bool.and_eq_true, beq_iff_eq] at hclaim
        have hn : r'.computeNodeId = some q.1 := hclaim.1
        have hact := (active_of_notPassed hs hn hnot).2 _ _ _ _ _ _ hmem ⟨q, hq, rfl⟩
        exact List.any_eq_true.mpr ⟨q, hq, by simp [claims, hn, hact]⟩

theorem fits_stmt (hw : (scheduling cfg).Good placementAssertions w)
    (hok : settled w (.run i a) = true) (hi : w.procs[i]? = some l₁)
    (h : l₁.stmt cfg w.db a = some (s', l₂)) : Fits s' := by
  rcases Scheduling.writes_of h with
    rfl | ⟨req, now, locked, fresh, got, c, rfl, rfl, hc, rfl⟩ | ⟨e, teamId, id, rfl, rfl, rfl⟩
  · exact hw.store
  · refine Fits.place hw.store (hw.at_ hi) hc fun hzero => ?_
    simpa [settled, hi, hc, hzero] using hok
  · exact (end_settled hw hi hok).1

/-- A statement of one call keeps what holds for another. -/
theorem sound_stmt_other (hw : (scheduling cfg).Good placementAssertions w)
    (hok : settled w (.run i a) = true) (hi : w.procs[i]? = some l₁)
    (h : l₁.stmt cfg w.db a = some (s', l₂)) (hm : m ∈ w.procs) (hat : m.Sound w.db)
    (hlock : ∀ r ∈ l₁.held, r ∉ m.held) : m.Sound s' := by
  rcases Scheduling.writes_of h with
    rfl | ⟨req, now, locked, fresh, got, c, rfl, rfl, hc, rfl⟩ | ⟨e, teamId, id, rfl, rfl, rfl⟩
  · exact hat
  · have hown : (Scheduling.scanning req now locked fresh [] got).Sound w.db := hw.at_ hi
    have hheld : ComputeRow.node c.nodeId ∈ locked := hown.2.1 _ (selected_of_fresh hc).1
    exact hat.place (hlock _ (List.mem_append_left _ hheld))
  · exact (end_settled hw hi hok).2 m hm hat (hlock _ (by simp [Scheduling.held]))

/-- A statement establishes what holds before the next one. -/
theorem sound_stmt_own (hat : l₁.Sound s) (h : l₁.stmt cfg s a = some (s', l₂)) :
    l₂.Sound s' := by
  cases a with
  | crash =>
      obtain ⟨-, rfl⟩ := stmt_of_crash h
      trivial
  | next =>
      cases l₁ with
      | done => cases h
      | reserving req =>
          obtain ⟨rfl, rfl⟩ := Prod.mk.inj (Option.some.inj h)
          split <;> trivial
      | teamLocked req tenant =>
          obtain ⟨rfl, rfl⟩ := Prod.mk.inj (Option.some.inj h)
          split
          · trivial
          · split
            · exact le_refl s.clock
            · trivial
      | admitted req now =>
          obtain ⟨rfl, rfl⟩ := Prod.mk.inj (Option.some.inj h)
          exact hat
      | lockingNodes req now todo nodes =>
          cases todo with
          | cons n todo =>
              obtain ⟨rfl, rfl⟩ := Prod.mk.inj (Option.some.inj h)
              exact hat
          | nil =>
              obtain ⟨rfl, rfl⟩ := Prod.mk.inj (Option.some.inj h)
              refine ⟨hat, fun n hn => ?_⟩
              obtain ⟨q, hq, rfl⟩ := List.mem_map.mp hn
              exact List.mem_map_of_mem (List.mem_filter.mp hq).1
      | poolsLoaded req now nodes eligible =>
          obtain ⟨rfl, rfl⟩ := Prod.mk.inj (Option.some.inj h)
          split
          · trivial
          · refine ⟨hat.1, fun q hq => ?_⟩
            have hn := hat.2 q.1 (freshNodes_mem hq).1
            exact List.mem_append_left _ (List.mem_cons_of_mem _ (List.mem_map_of_mem hn))
      | snapshotsLocked req now locked fresh =>
          obtain ⟨rfl, rfl⟩ := Prod.mk.inj (Option.some.inj h)
          refine ⟨hat.1, hat.2, fun i r hget hon => Or.inl ?_⟩
          have hmem := (List.perm_insertionSort scanBefore _).mem_iff.mpr
            (Table.mem_select.mpr ⟨hget, hon⟩)
          exact List.mem_map_of_mem (f := Prod.fst) hmem
      | scanning req now locked fresh todo got =>
          cases todo with
          | nil =>
              obtain ⟨-, rfl⟩ := Prod.mk.inj (Option.some.inj h)
              trivial
          | cons id todo =>
              obtain ⟨rfl, rfl⟩ := Prod.mk.inj (Option.some.inj h)
              refine ⟨hat.1, hat.2.1, fun i r hget hon => ?_⟩
              rcases hat.2.2 i r hget hon with htodo | ⟨r', hgot, hr'⟩
              · rcases List.mem_cons.mp htodo with rfl | htodo
                · refine Or.inr ⟨r, ?_, rfl, rfl⟩
                  simp [hget, hon]
                · exact Or.inl htodo
              · refine Or.inr ⟨r', ?_, hr'⟩
                split
                · exact hgot
                · split
                  · exact List.mem_append_left _ hgot
                  · exact hgot
      | ending e teamId id =>
          obtain ⟨rfl, rfl⟩ := Prod.mk.inj (Option.some.inj h)
          split <;> trivial
      | endingTeamLocked e teamId id =>
          obtain ⟨rfl, rfl⟩ := Prod.mk.inj (Option.some.inj h)
          unfold ComputeStore.lockEnding
          cases hr : s.db.lockReservationForTeam teamId id with
          | error message => trivial
          | ok r =>
              cases e with
              | release =>
                  simp only
                  split <;> trivial
              | consume workloadReference =>
                  simp only
                  split
                  · next hc =>
                      exact ⟨r, (lockReservationForTeam_ok hr).1, (checkConsume_true.mp hc).1⟩
                  · trivial
                  · trivial
      | endingLocked e teamId id =>
          obtain ⟨-, rfl⟩ := Prod.mk.inj (Option.some.inj h)
          trivial

theorem placement_obligations (cfg : SchedulerConfig) :
    (scheduling cfg).Obligations (fun w a => settled w a = true) placementAssertions where
  start {s l} _ hl := by
    cases l with
    | reserving _ | ending _ _ _ => trivial
    | _ => cases hl
  startPair _ _ := ⟨trivial, trivial⟩
  own hw hok hi h := ⟨fits_stmt hw hok hi h, sound_stmt_own (hw.at_ hi) h⟩
  other hw hok hi h _ hj _ hlock :=
    ⟨sound_stmt_other hw hok hi h (List.mem_of_getElem? hj) (hw.at_ hj) hlock, trivial, trivial⟩
  env hw _ h := Fits.env hw.store h
  envOther hw _ h hj hlock := Scheduling.Sound.env (hw.at_ hj) h hlock

/-- In every settled interleaving: after a placement on a node, and as long as
no later placement on it uses a larger snapshot, the active reservations of
the node fit the snapshot that the placement used. -/
theorem claimed_le_snapshot {s : ComputeStore} (hstart : s.placements = [])
    (hrun : Reaches (scheduling cfg).step (fun w a => settled w a = true) (Machine.idle s) w)
    {p : Placement} {later earlier : List Placement}
    (hp : w.db.placements = later ++ p :: earlier)
    (hlater : ∀ q ∈ later, q.nodeId = p.nodeId → q.capacity ≤ p.capacity) :
    w.db.db.claimed w.db.clock p.nodeId ≤ p.capacity := by
  have hinit : Fits s := by
    refine ⟨fun p hp => ?_, fun n p hp => ?_⟩
    · rw [hstart] at hp
      cases hp
    · rw [ComputeStore.lastPlacement, hstart] at hp
      cases hp
  have hgood := (placement_obligations cfg).reaches hrun
    (Machine.good_idle (S := placementAssertions) hinit)
  have hfits : Fits w.db := hgood.store
  -- the last placement on the node is `p` or a later one
  obtain ⟨q, hq⟩ : ∃ q, w.db.lastPlacement p.nodeId = some q := by
    refine Option.ne_none_iff_exists'.mp fun hnone => ?_
    have hno := List.find?_eq_none.mp hnone p (by rw [hp]; simp)
    simp at hno
  have hcap : q.capacity ≤ p.capacity := by
    have hfind := hq
    rw [ComputeStore.lastPlacement, hp, List.find?_append] at hfind
    cases hl : later.find? fun q => q.nodeId == p.nodeId with
    | some q' =>
        rw [hl] at hfind
        obtain rfl : q' = q := Option.some.inj hfind
        exact hlater q' (List.mem_of_find?_eq_some hl) (by simpa using List.find?_some hl)
    | none =>
        rw [hl] at hfind
        obtain rfl : p = q := by simpa using hfind
        exact le_rfl
  have hmem : q ∈ w.db.placements := List.mem_of_find?_eq_some hq
  calc w.db.db.claimed w.db.clock p.nodeId
      ≤ w.db.db.claimed q.now p.nodeId := claimed_anti w.db.db (hfits.past q hmem) p.nodeId
    _ ≤ q.capacity := hfits.last p.nodeId q hq
    _ ≤ p.capacity := hcap

end Run

/-! ## A reservation consumed late -/

/-- Two active tenants and no compute. -/
def twoTenants : ComputeStore where
  db := { emptyCompute.db with teams := (Table.empty.insert ⟨true⟩).insert ⟨true⟩ }
  clock := 0
  placements := []

def wholeServerFor (teamId : Nat) (idempotencyKey : String) : PlacementRequest :=
  ⟨teamId, "application", wholeServer, idempotencyKey, none⟩

/-- The server is reserved by the first tenant, to be consumed by call 1. -/
def reservedOnce : List (Action Scheduling Turn ComputeEnv) :=
  List.flatten [[.env (.register ⟨5, "a", "A", none, ["application"]⟩),
    .env (.capture 1 smallServer 0), .spawn (.reserving (wholeServerFor 1 "first"))],
    .replicate 8 (.run 0 .next), [.spawn (.ending (.consume "app") 1 1)]]

theorem claimed_le_snapshot_consumed :
    ∃ w p, Reaches (scheduling defaultConfig).step (fun w a => settled w a = true)
        (Machine.idle twoTenants) w ∧ w.db.placements = [p] ∧
      w.db.db.claimed w.db.clock p.nodeId ≤ p.capacity := by
  obtain ⟨w, hrun, hone⟩ := exists_reaches_of_execIf (scheduling defaultConfig).step
    (fun w a => settled w a = true) (Machine.idle twoTenants)
    (List.flatten [reservedOnce, .replicate 3 (.run 1 .next)])
    (fun w => w.db.placements.length == 1 && w.db.db.claimed w.db.clock 1 .cpuMillis == 500)
    (by decide +kernel)
  simp only [Bool.and_eq_true, beq_iff_eq] at hone
  obtain ⟨p, hp⟩ := List.length_eq_one_iff.mp hone.1
  have hlast : w.db.placements = [] ++ p :: [] := hp
  exact ⟨w, p, hrun, hp, claimed_le_snapshot rfl hrun hlast fun _ hq => nomatch hq⟩

/-- A consume that has tested the expiry and updates only after another
reservation took the node: the node is oversold, whatever was captured. -/
theorem node_oversold :
    ¬ ∀ (cfg : SchedulerConfig) (s : ComputeStore) (w : World ComputeStore Scheduling)
      (n : Nat) (p : Placement), s.placements = [] → s.db.reservations = .empty →
      Reaches (scheduling cfg).step Any (Machine.idle s) w → w.db.lastPlacement n = some p →
      (∀ i q, w.db.db.snapshots.get? i = some q → q.availableResources = p.capacity) →
      w.db.db.claimed w.db.clock n ≤ p.capacity := by
  intro h
  obtain ⟨w, hrun, hsold⟩ := exists_reaches_of_execIf (scheduling defaultConfig).step Any
    (Machine.idle twoTenants)
    (List.flatten [reservedOnce, [.env (.pass 250), .env (.capture 1 smallServer 250)],
      .replicate 2 (.run 1 .next),
      [.env (.pass 60), .spawn (.reserving (wholeServerFor 2 "second"))],
      .replicate 8 (.run 2 .next), [.run 1 .next]])
    (fun w => w.db.db.claimed w.db.clock 1 .cpuMillis == 1000 &&
      (w.db.lastPlacement 1).any fun p => p.capacity .cpuMillis == 500 &&
        (w.db.db.snapshots.select fun _ q =>
          decide (q.availableResources ≠ p.capacity)).isEmpty)
    (by decide +kernel)
  simp only [Bool.and_eq_true, beq_iff_eq, Option.any_eq_true] at hsold
  obtain ⟨hclaimed, p, hp, hcap, hsame⟩ := hsold
  have hsnap : ∀ i q, w.db.db.snapshots.get? i = some q → q.availableResources = p.capacity := by
    intro i q hq
    by_contra hne
    have hmem : (i, q) ∈ w.db.db.snapshots.select fun _ q =>
        decide (q.availableResources ≠ p.capacity) := Table.mem_select.mpr ⟨hq, by simpa using hne⟩
    rw [List.isEmpty_iff.mp hsame] at hmem
    cases hmem
  have hle : w.db.db.claimed w.db.clock 1 .cpuMillis ≤ p.capacity .cpuMillis :=
    h defaultConfig twoTenants w 1 p rfl rfl hrun hp hsnap .cpuMillis
  omega

end OnePloy
