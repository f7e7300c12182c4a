import OnePloy.VolumeCopies

/-!
# The newest upload of a volume

Under limits by amount and by storage a clean-up spares it: unlike that of databases, it
ranks no execution that was never uploaded, and the limits spare the first.
-/

namespace OnePloy

open Conc Php

namespace VolumeStore

variable {pending : Nat → Bool} {v v' : VolumeStore} {u : UploadRecord} {c : VolumeCleanUp}

/-- The execution of an upload is later than all others that were uploaded, and has
its object under a name of its own. -/
structure Newest (pending : Nat → Bool) (v : VolumeStore) (u : UploadRecord) : Prop where
  row : ∃ e, v.executions.get? u.execution = some e ∧ e.status = .success ∧
    e.s3Uploaded = some true ∧ e.s3StorageDeleted = false ∧ e.filename = some u.filename ∧
      ∀ i e', v.executions.get? i = some e' → e'.s3Uploaded = some true → i ≠ u.execution →
        e'.createdAt < e.createdAt
  name : ∀ i e, v.executions.get? i = some e → e.filename = some u.filename → i = u.execution
  settled : pending u.execution = false
  object : v.objects u.storage u.filename = some u.execution

/-- Other executions may lose their name, and may come if they were not uploaded. -/
theorem Newest.of_rows (h : Newest pending v u) {pending' : Nat → Bool}
    (hself : ∀ e, v.executions.get? u.execution = some e →
      ∃ b, v'.executions.get? u.execution = some { e with localStorageDeleted := b })
    (hothers : ∀ i e', v'.executions.get? i = some e' → i ≠ u.execution →
      (∃ e, v.executions.get? i = some e ∧ e'.s3Uploaded = e.s3Uploaded ∧
        e'.createdAt = e.createdAt ∧
          (e'.filename = some u.filename → e.filename = some u.filename)) ∨
        e'.s3Uploaded ≠ some true ∧ e'.filename ≠ some u.filename)
    (hpending : pending' u.execution = pending u.execution)
    (hobject : v'.objects u.storage u.filename = v.objects u.storage u.filename) :
    Newest pending' v' u := by
  obtain ⟨e, he, hstatus, hup, hkept, hname, hlatest⟩ := h.row
  obtain ⟨b, he'⟩ := hself e he
  refine ⟨⟨_, he', hstatus, hup, hkept, hname, fun i e₁ he₁ hup₁ hi => ?_⟩,
    fun i e₁ he₁ hname₁ => ?_, hpending.trans h.settled, hobject.trans h.object⟩
  · rcases hothers i e₁ he₁ hi with ⟨e₀, he₀, hup₀, hcreated, -⟩ | ⟨hnot, -⟩
    · exact hcreated ▸ hlatest i e₀ he₀ (hup₀ ▸ hup₁) hi
    · exact absurd hup₁ hnot
  · by_contra hi
    rcases hothers i e₁ he₁ hi with ⟨e₀, he₀, -, -, hname₀⟩ | ⟨-, hnot⟩
    · exact hi (h.name i e₀ he₀ (hname₀ hname₁))
    · exact hnot hname₁

/-- Without a limit in days the latest execution is in no selection. -/
theorem latest_not_outside {r : Retention} {now : Nat} {rows : List VolumeRow} {p : VolumeRow}
    (hdays : r.days ≤ 0) (hnodup : rows.Nodup)
    (hsorted : rows.Pairwise fun p q => q.2.createdAt ≤ p.2.createdAt)
    (hlatest : ∀ q ∈ rows, q ≠ p → q.2.createdAt < p.2.createdAt) :
    p ∉ executionsOutsideRetention r now rows := by
  intro hp
  have hin := outside_subset r now p hp
  cases rows with
  | nil => cases hin
  | cons first rest =>
      have hfirst : first = p := by
        by_contra hne
        have hrest := (List.mem_cons.mp hin).resolve_left (Ne.symm hne)
        have hle := (List.pairwise_cons.mp hsorted).1 p hrest
        exact absurd (hlatest first (List.mem_cons_self ..) hne) (Nat.not_lt.mpr hle)
      subst hfirst
      have hout := (List.nodup_cons.mp hnodup).1
      rw [executionsOutsideRetention] at hp
      split at hp
      · cases hp
      · rw [List.mem_eraseDups, List.mem_append, List.mem_append] at hp
        rcases hp with (hp | hp) | hp
        · split at hp
          · next hamount =>
              obtain ⟨n, hn⟩ : ∃ n, r.amount.toNat = n + 1 := ⟨r.amount.toNat - 1, by omega⟩
              rw [hn, List.drop_succ_cons] at hp
              exact hout (List.mem_of_mem_drop hp)
          · cases hp
        · rw [if_neg (by omega)] at hp
          cases hp
        · split at hp
          · rw [sliceOver, if_neg fun h => Nat.lt_irrefl 0 h.1] at hp
            exact hout (sliceOver_subset _ _ _ _ hp)
          · cases hp

theorem isSome_expireLocally (r : Retention) (i : Nat) :
    ((v.expireLocally r c).1.executions.get? i).isSome = (v.executions.get? i).isSome := by
  rw [expireLocally]
  split
  · rfl
  · split
    · rw [get?_note, Option.isSome_map]
      rfl
    · rfl

theorem Newest.expireLocally (h : Newest pending v u) (r : Retention)
    (hlists : v.lists hasLocalCopy c.locally = true) :
    Newest pending (v.expireLocally r c).1 u := by
  refine h.of_rows (fun e he => ?_) (fun i e' he' _ => ?_) rfl
    (by rw [objects_expireLocally])
  · have hsome := isSome_expireLocally (v := v) (c := c) r u.execution
    rw [he, Option.isSome_some] at hsome
    obtain ⟨e', he'⟩ := Option.isSome_iff_exists.mp hsome
    obtain ⟨e₀, he₀, hsame⟩ := rows_expireLocally r hlists he'
    obtain rfl := Option.some.inj (he.symm.trans he₀)
    rcases hsame with rfl | ⟨-, rfl⟩
    · exact ⟨e.localStorageDeleted, he'⟩
    · exact ⟨true, he'⟩
  · obtain ⟨e, he, rfl | ⟨-, rfl⟩⟩ := rows_expireLocally r hlists he' <;>
      exact .inl ⟨e, he, rfl, rfl, fun hname => hname⟩

/-- The executions in question were uploaded: it is the first of them. -/
theorem Newest.expireInS3 (h : Newest pending v u) {r : Retention} (hdays : r.days ≤ 0)
    (hlists : v.lists hasCopyInS3 c.inS3 = true)
    (hexpires : Expires (executionsOutsideRetention r c.now c.inS3) v v') :
    Newest pending v' u := by
  obtain ⟨e, he, hstatus, hup, hkept, hname, hlatest⟩ := h.row
  have hspared : (u.execution, e) ∉ executionsOutsideRetention r c.now c.inS3 := by
    have hsorted := hlists
    rw [lists, Bool.and_eq_true, decide_eq_true_eq] at hsorted
    refine latest_not_outside hdays (lists_nodup hlists) hsorted.2 fun q hq hne => ?_
    obtain ⟨hget, -, hcopy⟩ := (mem_lists hlists).mp hq
    rw [hasCopyInS3, Bool.and_eq_true, beq_iff_eq] at hcopy
    refine hlatest q.1 q.2 hget hcopy.1 fun hid => hne ?_
    rw [hid, he] at hget
    exact Prod.ext hid (Option.some.inj hget).symm
  have hnot : ∀ p ∈ executionsOutsideRetention r c.now c.inS3, p.1 ≠ u.execution := by
    intro p hp hid
    have hget := ((mem_lists hlists).mp (outside_subset r c.now p hp)).1
    rw [hid, he] at hget
    have hrow : p = (u.execution, e) := Prod.ext hid (Option.some.inj hget).symm
    exact hspared (hrow ▸ hp)
  refine h.of_rows (fun e₁ he₁ => ?_) (fun i e' he' hi => ?_) rfl ?_
  · have hsome := hexpires.same u.execution
    rw [he₁, Option.isSome_some] at hsome
    obtain ⟨e', he'⟩ := Option.isSome_iff_exists.mp hsome
    obtain ⟨e₀, he₀, hsame | ⟨-, ⟨p, hp, hid⟩, -⟩⟩ := hexpires.row _ e' he'
    · obtain rfl := Option.some.inj (he₁.symm.trans he₀)
      exact ⟨e₁.localStorageDeleted, by rw [he', hsame]⟩
    · exact absurd hid (hnot p hp)
  · obtain ⟨e₀, he₀, rfl | ⟨-, -, rfl⟩⟩ := hexpires.row i e' he' <;>
      exact .inl ⟨e₀, he₀, rfl, rfl, fun hname => hname⟩
  · cases hobject : v'.objects u.storage u.filename with
    | some i => exact (hexpires.object _ _ i hobject).symm
    | none =>
        rcases hexpires.gone _ _ hobject with hgone | ⟨p, hp, hname'⟩
        · exact hgone.symm
        · have hget := ((mem_lists hlists).mp (outside_subset r c.now p hp)).1
          exact absurd (h.name p.1 p.2 hget hname') (hnot p hp)

theorem Newest.deleteGone (h : Newest pending v u) : Newest pending v.deleteGone u := by
  obtain ⟨e₀, he₀, -, hup, hkept, -, -⟩ := h.row
  refine h.of_rows (fun e he => ⟨e.localStorageDeleted, ?_⟩) (fun i e' he' _ => ?_) rfl rfl
  · obtain rfl := Option.some.inj (he.symm.trans he₀)
    refine Table.get?_deleteWhere.mpr ⟨he, ?_⟩
    rw [isGone, hkept, hup, Option.isNone_some, Bool.or_false, Bool.and_false]
  · exact .inl ⟨e', (Table.get?_deleteWhere.mp he').1, rfl, rfl, fun hname => hname⟩

theorem Newest.modify (h : Newest pending v u) {pending' : Nat → Bool} {id : Nat}
    (hid : id ≠ u.execution) {g : VolumeArchive → VolumeArchive}
    (hrows : v'.executions = v.executions.modify id g)
    (hg : ∀ e, v.executions.get? id = some e → (g e).s3Uploaded = e.s3Uploaded ∧
      (g e).createdAt = e.createdAt ∧
        ((g e).filename = some u.filename → e.filename = some u.filename))
    (hpending : pending' u.execution = pending u.execution)
    (hobject : v'.objects u.storage u.filename = v.objects u.storage u.filename) :
    Newest pending' v' u := by
  refine h.of_rows (fun e he => ⟨e.localStorageDeleted, ?_⟩) (fun i e' he' _ => .inl ?_) hpending
    hobject
  · rw [hrows]
    exact (Table.get?_modify_ne g hid.symm).trans he
  · rw [hrows] at he'
    by_cases hi : i = id
    · rw [hi, Table.get?_modify, if_pos rfl, Option.map_eq_some_iff] at he'
      obtain ⟨e, he, rfl⟩ := he'
      exact ⟨e, hi ▸ he, hg e he⟩
    · rw [Table.get?_modify_ne g hi] at he'
      exact ⟨e', he', rfl, rfl, fun hname => hname⟩

end VolumeStore

/-- A limit in days may reach the newest upload; without one, a clean-up is by amount or
by storage. -/
def VolumeEvent.ByAmountOrStorage : VolumeEvent → Prop
  | .run job => job.cfg.inS3.days ≤ 0
  | .failed .. => True
  | .recover .. => True

instance : DecidablePred VolumeEvent.ByAmountOrStorage := fun event =>
  match event with
  | .run job => inferInstanceAs (Decidable (job.cfg.inS3.days ≤ 0))
  | .failed .. => isTrue trivial
  | .recover .. => isTrue trivial

namespace VolumeCopies

open VolumeStore

variable {v v' : VolumeCopies} {job : VolumeJob} {u : UploadRecord}

/-- The newest upload has its object in S3. -/
def NewestUploadKept (v : VolumeCopies) : Prop :=
  ∀ u ∈ v.uploads.head?, v.objects u.storage u.filename = some u.execution

instance (v : VolumeCopies) : Decidable v.NewestUploadKept :=
  inferInstanceAs (Decidable (∀ u ∈ v.uploads.head?, _))

/-- A job comes after the executions there are, and its archive has a name of its own. -/
def Apart (v : VolumeCopies) : VolumeEvent → Prop
  | .run job => ∀ p ∈ v.executions.rows,
      p.2.createdAt < job.createdAt ∧ p.2.filename ≠ some job.location
  | .failed .. => True
  | .recover .. => True

instance : DecidableRel Apart := fun v event =>
  match event with
  | .run _ => inferInstanceAs (Decidable (∀ p ∈ v.executions.rows, _ ∧ _))
  | .failed .. => isTrue trivial
  | .recover .. => isTrue trivial

/-- What the runs keep. -/
def NewestStands (v : VolumeCopies) : Prop :=
  ∀ u ∈ v.uploads.head?, Newest v.pending v.toVolumeStore u

theorem NewestStands.kept (h : v.NewestStands) : v.NewestUploadKept :=
  fun u hu => (h u hu).object

theorem archived_of_isUploaded (h : job.isUploaded = true) :
    ∃ size removal storage, job.outcome = .archived size .stored removal ∧
      job.storage = some storage ∧ job.cfg.saveS3 = true := by
  rw [VolumeJob.isUploaded] at h
  split at h
  · next size removal houtcome =>
      obtain ⟨storage, hstorage⟩ := Option.isSome_iff_exists.mp h
      refine ⟨size, removal, storage, houtcome, hstorage, ?_⟩
      rw [VolumeJob.storage] at hstorage
      split at hstorage
      · next hsave => exact hsave
      · cases hstorage
  · cases h

theorem row_not_uploaded (h : job.isUploaded = false) : job.row.s3Uploaded ≠ some true := by
  rw [VolumeJob.row]
  dsimp only
  rw [h]
  split
  · split
    · exact fun hsome => Bool.false_ne_true (Option.some.inj hsome)
    · exact fun hsome => Option.some_ne_none _ hsome.symm
  · exact fun hsome => Option.some_ne_none _ hsome.symm

theorem uploads_perform : (v.perform job).uploads =
    if job.isUploaded then
      job.storage.elim v.uploads fun s => ⟨v.executions.nextId, s, job.location⟩ :: v.uploads
    else v.uploads := rfl

theorem newest_perform_uploaded (hapart : v.Apart (.run job)) {size storage : Nat}
    {removal : Deletion} (houtcome : job.outcome = .archived size .stored removal)
    (hstorage : job.storage = some storage) (hsave : job.cfg.saveS3 = true) :
    Newest (v.perform job).pending (v.perform job).toVolumeStore
      ⟨v.executions.nextId, storage, job.location⟩ := by
  have hup : job.isUploaded = true := by
    rw [VolumeJob.isUploaded, houtcome, hstorage]
    rfl
  have hbefore : ∀ {i e}, (v.perform job).executions.get? i = some e → i ≠ v.executions.nextId →
      e.createdAt < job.createdAt ∧ e.filename ≠ some job.location := by
    intro i e he hi
    rw [get?_perform, if_neg hi] at he
    exact hapart (i, e) (Table.mem_rows.mpr he)
  refine ⟨⟨job.row, Table.get?_insert_self .., ?_, ?_, ?_, ?_,
    fun i e he _ hi => (hbefore he hi).1⟩, fun i e he hname => ?_, ?_, ?_⟩
  · rw [VolumeJob.row]
    simp only [houtcome]
  · rw [VolumeJob.row]
    simp only [houtcome, hsave, hup, if_true]
  · rw [VolumeJob.row, VolumeJob.isCleaned]
    simp only [houtcome]
  · rw [VolumeJob.row]
    simp only [houtcome]
  · by_contra hi
    exact (hbefore he hi).2 hname
  · refine pending_perform_self.trans ?_
    rw [VolumeJob.isPending, houtcome, hup]
    simp
  · rw [perform]
    simp only [hstorage, VolumeJob.takesObject, VolumeJob.writesObject, houtcome]
    simp

/-- A job that uploads nothing leaves the newest upload. -/
theorem newest_perform (h : Newest v.pending v.toVolumeStore u) (hapart : v.Apart (.run job))
    (hup : job.isUploaded = false) :
    Newest (v.perform job).pending (v.perform job).toVolumeStore u := by
  obtain ⟨e, he, -, -, -, hname, -⟩ := h.row
  have hne : u.filename ≠ job.location := fun hsame =>
    (hapart (u.execution, e) (Table.mem_rows.mpr he)).2 (hsame ▸ hname)
  refine h.of_rows (fun e₀ he₀ => ⟨e₀.localStorageDeleted, ?_⟩) (fun i e' he' _ => ?_)
    (pending_perform (Table.get?_lt he).ne) ?_
  · exact Table.get?_insert_of_some _ he₀
  · rw [get?_perform] at he'
    split at he'
    · obtain rfl := Option.some.inj he'
      exact .inr ⟨row_not_uploaded hup, fun hsame => hne (VolumeJob.filename_row hsame)⟩
    · exact .inl ⟨e', he', rfl, rfl, fun hsame => hsame⟩
  · rw [perform]
    exact if_neg fun hkey => hne hkey.2

theorem newestStands_perform (h : v.NewestStands) (hapart : v.Apart (.run job)) :
    (v.perform job).NewestStands := by
  intro u hu
  rw [uploads_perform] at hu
  cases hup : job.isUploaded with
  | false =>
      rw [hup] at hu
      exact newest_perform (h u hu) hapart hup
  | true =>
      obtain ⟨size, removal, storage, houtcome, hstorage, hsave⟩ := archived_of_isUploaded hup
      rw [hup, if_pos rfl, hstorage] at hu
      obtain rfl := Option.some.inj hu
      exact newest_perform_uploaded hapart houtcome hstorage hsave

theorem newestStands_handle (h : v.NewestStands) (hapart : v.Apart (.run job))
    (hdays : (VolumeEvent.run job).ByAmountOrStorage) (hstep : v.handle job = some v') :
    v'.NewestStands := by
  have hperformed := newestStands_perform h hapart
  rw [handle] at hstep
  split at hstep
  · split at hstep
    · cases hstep
    · obtain ⟨w, hw, rfl⟩ := Option.map_eq_some_iff.mp hstep
      exact removeExpiredBackups_induct
        (P := fun w => ∀ u ∈ (v.perform job).uploads.head?, Newest (v.perform job).pending w u) hw
        hperformed (fun hlists u hu => (hperformed u hu).expireLocally _ hlists)
        (fun w hkept hlists u hu =>
          (hkept u hu).expireInS3 hdays hlists (expires_expireInS3 _ hlists))
        fun w hkept u hu => (hkept u hu).deleteGone
  · cases hstep
    exact hperformed

theorem uploads_cleanupS3Upload (v : VolumeCopies) (id : Nat) (e : VolumeArchive)
    (cleanup : Deletion) : (v.cleanupS3Upload id e cleanup).uploads = v.uploads := by
  rcases cleanupS3Upload_cases v id e cleanup with
    hsame | ⟨storage, filename, -, -, htaken | hdone⟩
  · rw [hsame]
  · rw [htaken]
    rfl
  · rw [hdone]
    rfl

/-- A clean-up of another upload. -/
theorem newest_cleanupS3Upload (h : Newest v.pending v.toVolumeStore u) {id : Nat}
    {e : VolumeArchive} (he : v.executions.get? id = some e) (hid : id ≠ u.execution)
    (cleanup : Deletion) : Newest (v.cleanupS3Upload id e cleanup).pending
      (v.cleanupS3Upload id e cleanup).toVolumeStore u := by
  rcases cleanupS3Upload_cases v id e cleanup with
    hsame | ⟨storage, filename, -, hname, hrest⟩
  · rwa [hsame]
  · have hobject : (v.setObject storage filename none).objects u.storage u.filename =
        v.objects u.storage u.filename :=
      if_neg fun hkey : u.storage = storage ∧ u.filename = filename =>
        hid (h.name id e he (hkey.2 ▸ hname))
    rcases hrest with htaken | hdone
    · rw [htaken]
      exact h.of_rows (fun e₀ he₀ => ⟨e₀.localStorageDeleted, he₀⟩)
        (fun i e' he' _ => .inl ⟨e', he', rfl, rfl, fun hsame => hsame⟩) rfl hobject
    · rw [hdone]
      exact h.modify (g := ({ · with s3StorageDeleted := true })) hid rfl
        (fun _ _ => ⟨rfl, rfl, fun hsame => hsame⟩) (Function.update_of_ne hid.symm ..) hobject

/-- An upload was noted by a success: `failed()` finds another execution. -/
theorem newestStands_failed (h : v.NewestStands) (cleanup removal : Deletion) :
    (v.failed cleanup removal).NewestStands := by
  unfold failed
  split
  · exact h
  · next id e hlatest =>
      obtain ⟨he, hrunning⟩ := get?_latestRunning hlatest
      have hother : ∀ u ∈ v.uploads.head?, id ≠ u.execution := by
        rintro u hu rfl
        obtain ⟨e', he', hstatus, -⟩ := (h u hu).row
        obtain rfl := Option.some.inj (he.symm.trans he')
        rw [hrunning] at hstatus
        cases hstatus
      obtain ⟨v₁, hv₁, huploads, hcleaned, e₁, he₁, hname⟩ : ∃ v₁ : VolumeCopies,
          (if v.pending id then v.cleanupS3Upload id e cleanup else v) = v₁ ∧
            v₁.uploads = v.uploads ∧
            (∀ u ∈ v.uploads.head?, Newest v₁.pending v₁.toVolumeStore u) ∧
            ∃ e₁, v₁.executions.get? id = some e₁ ∧ e₁.filename = e.filename := by
        split
        · obtain ⟨e₁, he₁, -, hname⟩ := get?_cleanupS3Upload he cleanup
          exact ⟨_, rfl, uploads_cleanupS3Upload .., fun u hu =>
            newest_cleanupS3Upload (h u hu) he (hother u hu) cleanup, e₁, he₁, hname⟩
        · exact ⟨v, rfl, rfl, h, e, he, rfl⟩
      dsimp only
      rw [hv₁]
      cases hfilename : e.filename with
      | none =>
          intro u hu
          have hu : u ∈ v.uploads.head? := huploads ▸ hu
          exact (hcleaned u hu).modify (g := ({ · with status := .failed })) (hother u hu) rfl
            (fun _ _ => ⟨rfl, rfl, fun hsame => hsame⟩) rfl rfl
      | some filename =>
          dsimp only
          obtain ⟨v₂, hv₂, hrows, hobjects, hpending, huploads₂⟩ : ∃ v₂ : VolumeCopies,
              (if removal.takes then v₁.setFile filename none else v₁) = v₂ ∧
                v₂.executions = v₁.executions ∧ v₂.objects = v₁.objects ∧
                v₂.pending = v₁.pending ∧ v₂.uploads = v₁.uploads := by
            split <;> exact ⟨_, rfl, rfl, rfl, rfl, rfl⟩
          rw [hv₂]
          intro u hu
          have hu : u ∈ v.uploads.head? := huploads ▸ huploads₂ ▸ hu
          refine (hcleaned u hu).modify (g := fun row => { row with
              status := .failed
              filename := if removal.isDone && !v₂.pending id then none else some filename
              localStorageDeleted := row.localStorageDeleted || removal.isDone })
            (hother u hu) (by rw [hrows]) (fun e₀ he₀ => ⟨rfl, rfl, fun hsame => ?_⟩)
            (congrFun hpending _) (by rw [hobjects])
          obtain rfl := Option.some.inj (he₁.symm.trans he₀)
          dsimp only at hsame
          split at hsame
          · cases hsame
          · exact hname.trans (hfilename.trans hsame)

theorem newestStands_recover (h : v.NewestStands) {id : Nat} {cleanup : Deletion}
    (hstep : v.recover id cleanup = some v') : v'.NewestStands := by
  rw [recover, Option.map_eq_some_iff] at hstep
  obtain ⟨e, he, rfl⟩ := hstep
  split
  · next hpending =>
      intro u hu
      rw [uploads_cleanupS3Upload] at hu
      refine newest_cleanupS3Upload (h u hu) he (fun hid => ?_) cleanup
      rw [hid, (h u hu).settled] at hpending
      cases hpending
  · exact h

theorem newestStands_step {event : VolumeEvent} (h : v.NewestStands)
    (hok : event.ByAmountOrStorage ∧ v.Apart event) (hstep : v.step event = some v') :
    v'.NewestStands := by
  cases event with
  | run job => exact newestStands_handle h hok.2 hok.1 hstep
  | failed cleanup removal =>
      cases hstep
      exact newestStands_failed h cleanup removal
  | recover id cleanup => exact newestStands_recover h hstep

end VolumeCopies

end OnePloy
