import OnePloy.DatabaseRetention

/-!
# Copies of database backups

The archives of a schedule on the server and in the storages of S3, over runs between
which its settings change. The clean-up for S3 ranks every success that is not noted
as deleted from there, whether it was uploaded or not, and deletes from the storage
that is selected now; the local one notes whatever it has given to `rm`.

A copy is known by the execution that has written it. `uploads` is no table: it lists
the uploads that succeeded, the latest first.
-/

namespace OnePloy

open Conc Php

/-- A file with an archive, on the server or in a storage of S3. -/
structure BackupCopy where
  place : Option Nat
  filename : String
  execution : Nat
  deriving DecidableEq

/-- Over what had its name there. -/
def putCopy (copies : List BackupCopy) (c : BackupCopy) : List BackupCopy :=
  c :: copies.filter fun b => !(b.place == c.place && b.filename == c.filename)

def removeCopies (copies : List BackupCopy) (place : Option Nat) (gone : String → Bool) :
    List BackupCopy :=
  copies.filter fun b => !(b.place == place && gone b.filename)

structure UploadRecord where
  execution : Nat
  storage : Nat
  filename : String
  deriving DecidableEq

structure CopyStore where
  executions : Table BackupExecution
  copies : List BackupCopy
  uploads : List UploadRecord

/-- What a schedule says when a run begins. -/
structure CopySettings where
  schedule : BackupSchedule
  saveS3 : Bool
  /-- The selected storage, if it exists. -/
  s3 : Option Nat

/-- Without a storage the first upload switches `save_s3` off. -/
def CopySettings.target (cfg : CopySettings) : Option Nat := if cfg.saveS3 then cfg.s3 else none

/-! ## Dumps -/

inductive S3Upload
  /-- A connection may be lost after the object is `left`. -/
  | failed (left : Bool)
  /-- `closed`: the helper container goes without an exception. -/
  | stored (closed : Bool)
  deriving DecidableEq, Repr

def S3Upload.uploaded : S3Upload → Bool
  | .failed _ => false
  | .stored _ => true

def S3Upload.leaves : S3Upload → Bool
  | .failed left => left
  | .stored _ => true

/-- One pass of the loop over the databases. The worker `dies` in it, or it comes to
its end; what is not a whole archive may be left on the server all the same. -/
structure CopyAttempt where
  database : String
  uuid : String
  fileTime : Nat
  createdAt : Nat
  dumped : Option Nat
  dies : Bool
  left : Bool
  upload : S3Upload
  /-- Whether `rm` takes the file. -/
  removes : Bool
  deriving DecidableEq, Repr

namespace CopySettings

variable (cfg : CopySettings) (a : CopyAttempt)

def dump : DumpAttempt :=
  ⟨a.database, a.uuid, a.fileTime, a.createdAt, a.dumped, cfg.target.map fun _ => a.upload.uploaded⟩

def succeeds : Bool := !a.dies && (cfg.dump a).succeeds

def location : String := cfg.schedule.backupLocation (cfg.dump a)

/-- `disable_local_backup`, behind an upload that throws nothing. -/
def deletesLocally : Bool :=
  cfg.succeeds a && cfg.target.isSome && a.upload == .stored true && cfg.schedule.disableLocalBackup

/-- The row as the pass leaves it. -/
def execution : BackupExecution :=
  if a.dies then
    { cfg.schedule.execution (cfg.dump a) with
      status := .running, size := 0, filename := some (cfg.location a), s3Uploaded := none }
  else
    { cfg.schedule.execution (cfg.dump a) with localStorageDeleted := cfg.deletesLocally a }

def writes : Bool := cfg.succeeds a || a.left

/-- A failed dump of ClickHouse takes its file away, too. -/
def takes : Bool :=
  !a.dies && a.removes &&
    if cfg.succeeds a then cfg.deletesLocally a else cfg.schedule.kind == .clickhouse

/-- The storage in which the pass leaves an object. -/
def storesIn : Option Nat :=
  if (cfg.succeeds a || a.dies) && a.upload.leaves then cfg.target else none

/-- The storage to which it uploads, by its row. -/
def uploadsTo : Option Nat := if cfg.succeeds a && a.upload.uploaded then cfg.target else none

end CopySettings

namespace CopyStore

/-- The rows by themselves. -/
def backups (d : CopyStore) : BackupStore := ⟨d.executions, [], []⟩

/-- With the file of a pass. -/
def written (cfg : CopySettings) (d : CopyStore) (a : CopyAttempt) : List BackupCopy :=
  if cfg.writes a then putCopy d.copies ⟨none, cfg.location a, d.executions.nextId⟩
  else d.copies

/-- After the deletion of that file, if there is one. -/
def kept (cfg : CopySettings) (d : CopyStore) (a : CopyAttempt) : List BackupCopy :=
  if cfg.takes a then removeCopies (d.written cfg a) none (· == cfg.location a)
  else d.written cfg a

def dump (cfg : CopySettings) (d : CopyStore) (a : CopyAttempt) : CopyStore :=
  let id := d.executions.nextId
  let location := cfg.location a
  { executions := d.executions.insert (cfg.execution a)
    copies := (cfg.storesIn a).elim (d.kept cfg a) fun s =>
      putCopy (d.kept cfg a) ⟨some s, location, id⟩
    uploads := (cfg.uploadsTo a).elim d.uploads fun s => ⟨id, s, location⟩ :: d.uploads }

def dumps (cfg : CopySettings) : CopyStore → List CopyAttempt → Option CopyStore
  | d, [] => some d
  | d, a :: rest =>
      if d.backups.draws (cfg.dump a) && (!a.dies || rest.isEmpty) then
        dumps cfg (d.dump cfg a) rest
      else none

def markStaleExecutionsAsFailed (d : CopyStore) (staleBefore : Nat) : CopyStore :=
  { d with
    executions := d.executions.updateWhere
      (fun _ e => e.status == .running && decide (e.createdAt < staleBefore))
      ({ · with status := .failed }) }

end CopyStore

/-! ## Removing old backups -/

/-- What a clean-up finds outside: the order in which the database returns the
executions, and what `rm` and the storage take of the files they are given. -/
structure CopyCleanUp where
  locally : List BackupRow
  s3 : List BackupRow
  removes : String → Bool
  s3Deletes : String → Bool

namespace CopyStore

/-- `deleteOldBackupsLocally` and the update after it: `rm` is not asked how it went. -/
def deleteOldBackupsLocally (d : CopyStore) (r : Retention) (c : CopyCleanUp) : CopyStore :=
  let toDelete := r.toDelete c.locally
  let files := filesToDelete toDelete
  if files.isEmpty then d
  else
    { d with
      executions := d.executions.updateWhere (fun i _ => toDelete.any (·.1 == i))
        ({ · with localStorageDeleted := true })
      copies := removeCopies d.copies none fun f => files.contains f && c.removes f }

/-- `deleteOldBackupsFromS3` and the update after it: each file is tried, and all must
go for anything to be noted. -/
def deleteOldBackupsFromS3 (d : CopyStore) (r : Retention) (storage : Nat) (c : CopyCleanUp) :
    CopyStore :=
  let toDelete := r.toDelete c.s3
  let files := filesToDelete toDelete
  if files.isEmpty then d
  else
    { d with
      executions :=
        if files.all c.s3Deletes then
          d.executions.updateWhere (fun i _ => toDelete.any (·.1 == i))
            ({ · with s3StorageDeleted := true })
        else d.executions
      copies := removeCopies d.copies (some storage) fun f => files.contains f && c.s3Deletes f }

/-- No copy is left of these. -/
def deleteGone (d : CopyStore) : CopyStore :=
  { d with
    executions := (d.executions.deleteWhere fun _ e =>
      e.localStorageDeleted && e.s3StorageDeleted).deleteWhere fun _ e =>
      e.localStorageDeleted && e.s3Uploaded.isNone }

def removeLocally (cfg : CopySettings) (d : CopyStore) (c : CopyCleanUp) : Option CopyStore :=
  if cfg.schedule.disableLocalBackup then some d
  else if d.backups.lists (·.localStorageDeleted) c.locally then
    some (d.deleteOldBackupsLocally cfg.schedule.locally c)
  else none

def removeFromS3 (cfg : CopySettings) (d : CopyStore) (c : CopyCleanUp) : Option CopyStore :=
  match cfg.target with
  | some storage =>
      if d.backups.lists (·.s3StorageDeleted) c.s3 then
        some (d.deleteOldBackupsFromS3 cfg.schedule.s3 storage c)
      else none
  | none => some d

def removeOldBackups (cfg : CopySettings) (d : CopyStore) (c : CopyCleanUp) : Option CopyStore := do
  let d ← d.removeLocally cfg c
  let d ← d.removeFromS3 cfg c
  return d.deleteGone

end CopyStore

/-- One run of the job, under the settings of its time. -/
structure CopyRun where
  cfg : CopySettings
  staleBefore : Nat
  attempts : List CopyAttempt
  completed : Bool
  cleanUp : CopyCleanUp

def CopyRun.cleansUp (run : CopyRun) : Bool :=
  run.completed && run.attempts.getLast?.any run.cfg.succeeds

namespace CopyStore

def dumped (d : CopyStore) (run : CopyRun) : Option CopyStore :=
  (d.markStaleExecutionsAsFailed run.staleBefore).dumps run.cfg run.attempts

/-- `DatabaseBackupJob::handle`. -/
def handle (d : CopyStore) (run : CopyRun) : Option CopyStore := do
  let d ← d.dumped run
  if run.cleansUp then d.removeOldBackups run.cfg run.cleanUp else pure d

end CopyStore

/-- A schedule that has not run yet. -/
def emptyCopies : CopyStore := ⟨.empty, [], []⟩

/-! ## Copies -/

section Copies

variable {copies : List BackupCopy} {b c : BackupCopy}

theorem mem_putCopy : b ∈ putCopy copies c ↔
    b = c ∨ b ∈ copies ∧ ¬ (b.place = c.place ∧ b.filename = c.filename) := by
  rw [putCopy, List.mem_cons, List.mem_filter, Bool.not_eq_true', Bool.and_eq_false_iff,
    beq_eq_false_iff_ne, beq_eq_false_iff_ne, not_and_or]

theorem mem_removeCopies {place : Option Nat} {gone : String → Bool} :
    b ∈ removeCopies copies place gone ↔
      b ∈ copies ∧ ¬ (b.place = place ∧ gone b.filename = true) := by
  rw [removeCopies, List.mem_filter, Bool.not_eq_true', Bool.and_eq_false_iff,
    beq_eq_false_iff_ne, not_and_or, Bool.not_eq_true]

/-- There is an object with this name. -/
def HasObject (copies : List BackupCopy) (storage : Nat) (filename : String) : Prop :=
  ∃ b ∈ copies, b.place = some storage ∧ b.filename = filename

instance (copies : List BackupCopy) (storage : Nat) (filename : String) :
    Decidable (HasObject copies storage filename) :=
  inferInstanceAs (Decidable (∃ b ∈ copies, _))

theorem HasObject.put {storage : Nat} {filename : String} (h : HasObject copies storage filename)
    (c : BackupCopy) : HasObject (putCopy copies c) storage filename := by
  obtain ⟨b, hb, hplace, hname⟩ := h
  by_cases hover : b.place = c.place ∧ b.filename = c.filename
  · exact ⟨c, mem_putCopy.mpr (.inl rfl), hover.1 ▸ hplace, hover.2 ▸ hname⟩
  · exact ⟨b, mem_putCopy.mpr (.inr ⟨hb, hover⟩), hplace, hname⟩

theorem hasObject_put_self (copies : List BackupCopy) (storage : Nat) (filename : String)
    (id : Nat) : HasObject (putCopy copies ⟨some storage, filename, id⟩) storage filename :=
  ⟨_, mem_putCopy.mpr (.inl rfl), rfl, rfl⟩

theorem hasObject_remove_iff {storage : Nat} {filename : String} {place : Option Nat}
    {gone : String → Bool} : HasObject (removeCopies copies place gone) storage filename ↔
      HasObject copies storage filename ∧ ¬ (some storage = place ∧ gone filename = true) := by
  constructor
  · rintro ⟨b, hb, hplace, hname⟩
    obtain ⟨hb, hkept⟩ := mem_removeCopies.mp hb
    rw [hplace, hname] at hkept
    exact ⟨⟨b, hb, hplace, hname⟩, hkept⟩
  · rintro ⟨⟨b, hb, hplace, hname⟩, hkept⟩
    refine ⟨b, mem_removeCopies.mpr ⟨hb, ?_⟩, hplace, hname⟩
    rwa [hplace, hname]

end Copies

/-! ## The newest upload -/

variable {cfg : CopySettings} {d d' : CopyStore} {a : CopyAttempt} {c : CopyCleanUp}

namespace CopyStore

/-- The newest upload has its copy in S3. -/
def NewestUploadKept (d : CopyStore) : Prop :=
  ∀ u ∈ d.uploads.head?, HasObject d.copies u.storage u.filename

/-- Uploads have file names. -/
def UploadsNamed (d : CopyStore) : Prop :=
  ∀ u ∈ d.uploads, Value.truthy (.string u.filename) = true

theorem storesIn_of_uploadsTo {storage : Nat} (h : cfg.uploadsTo a = some storage) :
    cfg.storesIn a = some storage := by
  rw [CopySettings.uploadsTo] at h
  rw [CopySettings.storesIn]
  split at h
  · next hup =>
      rw [Bool.and_eq_true] at hup
      have hleaves : a.upload.leaves = true := by
        cases hupload : a.upload with
        | failed left => rw [hupload] at hup; cases hup.2
        | stored closed => rfl
      rw [hup.1, hleaves]
      exact h
  · cases h

theorem hasObject_dump {storage : Nat} {filename : String}
    (h : HasObject d.copies storage filename) :
    HasObject (d.dump cfg a).copies storage filename := by
  have hwritten : HasObject (d.written cfg a) storage filename := by
    rw [written]
    split
    · exact h.put _
    · exact h
  have hkept : HasObject (d.kept cfg a) storage filename := by
    rw [kept]
    split
    · exact hasObject_remove_iff.mpr ⟨hwritten, fun hgone => Option.some_ne_none _ hgone.1⟩
    · exact hwritten
  rw [CopyStore.dump]
  cases cfg.storesIn a with
  | none => exact hkept
  | some s => exact hkept.put _

theorem uploads_dump : (d.dump cfg a).uploads =
    (cfg.uploadsTo a).elim d.uploads
      fun s => ⟨d.executions.nextId, s, cfg.location a⟩ :: d.uploads := rfl

theorem UploadsNamed.dump (h : d.UploadsNamed) : (d.dump cfg a).UploadsNamed := by
  intro u hu
  rw [uploads_dump] at hu
  cases hto : cfg.uploadsTo a with
  | none => rw [hto] at hu; exact h u hu
  | some s =>
      rw [hto, Option.elim_some] at hu
      rcases List.mem_cons.mp hu with rfl | hu
      · exact truthy_backupLocation _
      · exact h u hu

theorem NewestUploadKept.dump (h : d.NewestUploadKept) : (d.dump cfg a).NewestUploadKept := by
  intro u hu
  rw [uploads_dump] at hu
  cases hto : cfg.uploadsTo a with
  | none =>
      rw [hto] at hu
      exact hasObject_dump (h u hu)
  | some s =>
      rw [hto] at hu
      obtain rfl := Option.some.inj hu
      rw [CopyStore.dump, storesIn_of_uploadsTo hto]
      exact hasObject_put_self ..

theorem dumps_keeps_newest : ∀ {attempts : List CopyAttempt} {d : CopyStore}, d.UploadsNamed →
    d.NewestUploadKept → d.dumps cfg attempts = some d' → d'.UploadsNamed ∧ d'.NewestUploadKept
  | [], _, hnamed, h, hd => by cases hd; exact ⟨hnamed, h⟩
  | a :: rest, d, hnamed, h, hd => by
      rw [dumps] at hd
      split at hd
      · exact dumps_keeps_newest hnamed.dump h.dump hd
      · cases hd

/-- The clean-up, step by step. -/
theorem removeOldBackups_eq (h : d.removeOldBackups cfg c = some d') :
    ∃ d₁ d₂, d' = d₂.deleteGone ∧
      (cfg.schedule.disableLocalBackup = true ∧ d₁ = d ∨
        cfg.schedule.disableLocalBackup = false ∧
          d.backups.lists (·.localStorageDeleted) c.locally = true ∧
          d₁ = d.deleteOldBackupsLocally cfg.schedule.locally c) ∧
      (cfg.target = none ∧ d₂ = d₁ ∨ ∃ storage, cfg.target = some storage ∧
        d₁.backups.lists (·.s3StorageDeleted) c.s3 = true ∧
          d₂ = d₁.deleteOldBackupsFromS3 cfg.schedule.s3 storage c) := by
  rw [removeOldBackups, Option.bind_eq_bind, Option.bind_eq_some_iff] at h
  obtain ⟨d₁, hlocal, h⟩ := h
  rw [Option.bind_eq_some_iff] at h
  obtain ⟨d₂, hs3, h⟩ := h
  refine ⟨d₁, d₂, (Option.some.inj h).symm, ?_, ?_⟩
  · rw [removeLocally] at hlocal
    cases hoff : cfg.schedule.disableLocalBackup with
    | true =>
        rw [hoff, if_pos rfl] at hlocal
        exact .inl ⟨rfl, (Option.some.inj hlocal).symm⟩
    | false =>
        rw [hoff, if_neg Bool.false_ne_true] at hlocal
        split at hlocal
        · next hlists => exact .inr ⟨rfl, hlists, (Option.some.inj hlocal).symm⟩
        · cases hlocal
  · rw [removeFromS3] at hs3
    cases htarget : cfg.target with
    | none =>
        rw [htarget] at hs3
        exact .inl ⟨rfl, (Option.some.inj hs3).symm⟩
    | some storage =>
        rw [htarget] at hs3
        dsimp only at hs3
        split at hs3
        · next hlists => exact .inr ⟨storage, rfl, hlists, (Option.some.inj hs3).symm⟩
        · cases hs3

theorem removeCopies_none {copies : List BackupCopy} {place : Option Nat} {gone : String → Bool}
    (h : ∀ f, gone f = false) : removeCopies copies place gone = copies := by
  simp [removeCopies, h]

theorem copies_deleteOldBackupsLocally (r : Retention) :
    (d.deleteOldBackupsLocally r c).copies = removeCopies d.copies none fun f =>
      (filesToDelete (r.toDelete c.locally)).contains f && c.removes f := by
  rw [deleteOldBackupsLocally]
  split
  · next hnone =>
      rw [removeCopies_none]
      simp [List.isEmpty_iff.mp hnone]
  · rfl

theorem copies_deleteOldBackupsFromS3 (r : Retention) (storage : Nat) :
    (d.deleteOldBackupsFromS3 r storage c).copies = removeCopies d.copies (some storage) fun f =>
      (filesToDelete (r.toDelete c.s3)).contains f && c.s3Deletes f := by
  rw [deleteOldBackupsFromS3]
  split
  · next hnone =>
      rw [removeCopies_none]
      simp [List.isEmpty_iff.mp hnone]
  · rfl

theorem uploads_deleteOldBackupsLocally (r : Retention) :
    (d.deleteOldBackupsLocally r c).uploads = d.uploads := by
  rw [deleteOldBackupsLocally]
  split <;> rfl

theorem uploads_deleteOldBackupsFromS3 (r : Retention) (storage : Nat) :
    (d.deleteOldBackupsFromS3 r storage c).uploads = d.uploads := by
  rw [deleteOldBackupsFromS3]
  split <;> rfl

/-- The limits spare the newest upload, among all that the clean-up lists, as far as
the storage takes the deletion of its file. -/
def LimitsSpare (d : CopyStore) (cfg : CopySettings) (c : CopyCleanUp) : Prop :=
  ∀ u ∈ d.uploads.head?, cfg.target = some u.storage → c.s3Deletes u.filename = true →
    ∀ p ∈ c.s3, p.2.filename = some u.filename → WithinLimits cfg.schedule.s3 c.s3 p

theorem hasObject_deleteOldBackupsFromS3_iff {u : UploadRecord} {r : Retention} {storage : Nat}
    (hname : Value.truthy (.string u.filename) = true)
    (hlists : d.backups.lists (·.s3StorageDeleted) c.s3 = true)
    (h : HasObject d.copies u.storage u.filename) :
    HasObject (d.deleteOldBackupsFromS3 r storage c).copies u.storage u.filename ↔
      (storage = u.storage → c.s3Deletes u.filename = true →
        ∀ p ∈ c.s3, p.2.filename = some u.filename → WithinLimits r c.s3 p) := by
  have hnodup := BackupStore.lists_nodup hlists
  rw [copies_deleteOldBackupsFromS3, hasObject_remove_iff, Option.some_inj, Bool.and_eq_true,
    List.contains_iff_mem, BackupStore.mem_filesToDelete]
  constructor
  · rintro ⟨-, hkept⟩ hstorage hdeletes p hp hf
    by_contra hover
    exact hkept ⟨hstorage.symm,
      ⟨hname, p, (Retention.mem_toDelete hnodup hp).mpr hover, hf⟩, hdeletes⟩
  · intro hspared
    refine ⟨h, ?_⟩
    rintro ⟨hstorage, ⟨-, p, hp, hf⟩, hdeletes⟩
    have hin := Retention.toDelete_subset p hp
    exact (Retention.mem_toDelete hnodup hin).mp hp (hspared hstorage.symm hdeletes p hin hf)

theorem removeOldBackups_keeps_newest (hnamed : d.UploadsNamed) (h : d.NewestUploadKept)
    (hd : d.removeOldBackups cfg c = some d') :
    d'.UploadsNamed ∧ (d'.NewestUploadKept ↔ d.LimitsSpare cfg c) := by
  obtain ⟨d₁, d₂, rfl, hlocal, hs3⟩ := removeOldBackups_eq hd
  have huploads₁ : d₁.uploads = d.uploads := by
    rcases hlocal with ⟨-, rfl⟩ | ⟨-, -, rfl⟩
    · rfl
    · exact uploads_deleteOldBackupsLocally _
  have hobjects₁ : ∀ storage filename, HasObject d.copies storage filename →
      HasObject d₁.copies storage filename := by
    intro storage filename hobject
    rcases hlocal with ⟨-, rfl⟩ | ⟨-, -, rfl⟩
    · exact hobject
    · rw [copies_deleteOldBackupsLocally]
      exact hasObject_remove_iff.mpr ⟨hobject, fun hgone => Option.some_ne_none _ hgone.1⟩
  have huploads₂ : d₂.uploads = d.uploads := by
    rcases hs3 with ⟨-, rfl⟩ | ⟨storage, -, -, rfl⟩
    · exact huploads₁
    · rw [uploads_deleteOldBackupsFromS3, huploads₁]
  have hsame : d₂.deleteGone.uploads = d.uploads := huploads₂
  refine ⟨fun u hu => hnamed u (hsame ▸ hu), ?_⟩
  rw [NewestUploadKept, LimitsSpare, hsame]
  refine forall_congr' fun u => forall_congr' fun hu => ?_
  have hobject := hobjects₁ _ _ (h u hu)
  rcases hs3 with ⟨htarget, rfl⟩ | ⟨storage, htarget, hlists, rfl⟩
  · refine iff_of_true hobject fun hsome => ?_
    rw [htarget] at hsome
    cases hsome
  · rw [htarget, Option.some_inj]
    exact hasObject_deleteOldBackupsFromS3_iff (hnamed u (List.mem_of_head? hu)) hlists hobject

/-- In a run that cleans up, the limits for S3 spare the newest upload. -/
def SparesUpload (d : CopyStore) (run : CopyRun) : Prop :=
  run.cleansUp = true → ∀ d₁, d.dumped run = some d₁ → d₁.LimitsSpare run.cfg run.cleanUp

instance (d : CopyStore) (cfg : CopySettings) (c : CopyCleanUp) :
    Decidable (d.LimitsSpare cfg c) :=
  inferInstanceAs (Decidable (∀ u ∈ d.uploads.head?, _ → _ → ∀ p ∈ c.s3, _ →
    WithinLimits cfg.schedule.s3 c.s3 p))

instance : DecidableRel SparesUpload := fun d run =>
  inferInstanceAs (Decidable (run.cleansUp = true →
    ∀ d₁ ∈ d.dumped run, d₁.LimitsSpare run.cfg run.cleanUp))

instance (d : CopyStore) : Decidable d.NewestUploadKept :=
  inferInstanceAs (Decidable (∀ u ∈ d.uploads.head?, _))

theorem handle_keeps_newest {run : CopyRun} (hnamed : d.UploadsNamed) (h : d.NewestUploadKept)
    (hd : d.handle run = some d') :
    d'.UploadsNamed ∧ (d'.NewestUploadKept ↔ d.SparesUpload run) := by
  rw [handle, Option.bind_eq_bind, Option.bind_eq_some_iff] at hd
  obtain ⟨d₁, hd₁, hd⟩ := hd
  obtain ⟨hnamed₁, h₁⟩ := dumps_keeps_newest (d := d.markStaleExecutionsAsFailed run.staleBefore)
    hnamed h hd₁
  have hspares : d.SparesUpload run ↔
      (run.cleansUp = true → d₁.LimitsSpare run.cfg run.cleanUp) := by
    refine imp_congr_right fun _ => ⟨fun hall => hall d₁ hd₁, fun hspared d₂ hd₂ => ?_⟩
    rw [hd₁] at hd₂
    cases hd₂
    exact hspared
  rw [hspares]
  split at hd
  · next hcleans =>
      obtain ⟨hnamed', hiff⟩ := removeOldBackups_keeps_newest hnamed₁ h₁ hd
      exact ⟨hnamed', hiff.trans ⟨fun hspared _ => hspared, fun hspared => hspared hcleans⟩⟩
  · next hcleans =>
      cases hd
      exact ⟨hnamed₁, iff_of_true h₁ fun htrue => absurd htrue hcleans⟩

/-- After every run the newest upload has its copy, exactly when no clean-up of the
history reaches it. -/
theorem newest_kept_iff {trail : List (CopyStore × CopyRun)} {u : CopyStore}
    (hrun : Runs handle emptyCopies trail u) :
    Throughout NewestUploadKept trail u ↔ ∀ p ∈ trail, p.1.SparesUpload p.2 :=
  hrun.throughout_iff (fun _ _ _ hnamed h hd => (handle_keeps_newest hnamed h hd).1)
    (fun _ _ _ hnamed h hd => (handle_keeps_newest hnamed h hd).2)
    (fun _ hu => absurd hu List.not_mem_nil) fun _ hu => by cases hu

/-- A database with one backup kept in S3, and `amount` on the server. -/
def shopCopies (amount : Int) (saveS3 : Bool) : CopySettings where
  schedule :=
    { kind := .postgresql
      dumpAll := false
      backupDir := "/data/coolify/backups/databases/root-1/shop-pg"
      disableLocalBackup := false
      locally := ⟨amount, 0, 0⟩
      s3 := ⟨1, 0, 0⟩ }
  saveS3 := saveS3
  s3 := some 1

def shopAttempt (uuid : String) (time : Nat) (upload : S3Upload) : CopyAttempt :=
  ⟨"shop", uuid, time, time, some 4096, false, false, upload, true⟩

/-- Two runs, a day apart; the clean-up of the second finds both executions. -/
def shopRuns (cfg : CopySettings) (second : S3Upload) (removes : Bool) : List CopyRun :=
  let a := shopAttempt "u1" 1790800000 (.stored true)
  let b := shopAttempt "u2" 1790886400 second
  let rows := [(1, cfg.execution a)]
  let later := (2, cfg.execution b) :: rows
  [⟨cfg, 0, [a], true, ⟨rows, rows, fun _ => removes, fun _ => true⟩⟩,
    ⟨cfg, 0, [b], true, ⟨later, later, fun _ => removes, fun _ => true⟩⟩]

theorem newest_of_two_kept : ∃ trail d, Runs handle emptyCopies trail d ∧ d.uploads.length = 2 ∧
    Throughout NewestUploadKept trail d := by
  obtain ⟨trail, d, hrun, hok, hd⟩ := exists_runs_of_execIf handle SparesUpload
    (shopRuns (shopCopies 0 true) (.stored true) true) emptyCopies (fun d => d.uploads.length == 2)
    (by decide +kernel)
  exact ⟨trail, d, hrun, beq_iff_eq.mp hd, (newest_kept_iff hrun).mpr hok⟩

/-- The second upload fails, and the clean-up deletes the first for it. -/
theorem only_upload_deleted : ∃ trail d, Runs handle emptyCopies trail d ∧
    ¬ Throughout NewestUploadKept trail d := by
  obtain ⟨trail, d, hrun, -, hlost⟩ := exists_runs_of_execIf handle Any
    (shopRuns (shopCopies 0 true) (.failed false) true) emptyCopies
    (fun d => !decide d.NewestUploadKept) (by decide +kernel)
  rw [Bool.not_eq_true', decide_eq_false_iff_not] at hlost
  exact ⟨trail, d, hrun, fun h => hlost h.2⟩

/-! ## Copies and their executions -/

/-- Each copy belongs to an execution. -/
def NoneOrphaned (d : CopyStore) : Prop :=
  ∀ b ∈ d.copies, (d.executions.get? b.execution).isSome = true

/-- What is noted as deleted was deleted: `rm` takes the files it is given, and an
execution that is deleted from S3 has no object in another storage than the selected. -/
def Careful (d : CopyStore) (run : CopyRun) : Prop :=
  (∀ a ∈ run.attempts, run.cfg.deletesLocally a = true → a.removes = true) ∧
    (run.cleansUp = true →
      (run.cfg.schedule.disableLocalBackup = false →
        ∀ f ∈ filesToDelete (run.cfg.schedule.locally.toDelete run.cleanUp.locally),
          run.cleanUp.removes f = true) ∧
      ∀ storage ∈ run.cfg.target,
        (∀ f ∈ filesToDelete (run.cfg.schedule.s3.toDelete run.cleanUp.s3),
          run.cleanUp.s3Deletes f = true) →
        ∀ p ∈ run.cfg.schedule.s3.toDelete run.cleanUp.s3, ∀ b ∈ d.copies,
          b.execution = p.1 → b.place = none ∨ b.place = some storage)

instance : DecidableRel Careful := fun d run =>
  inferInstanceAs (Decidable ((∀ a ∈ run.attempts, _) ∧ (_ → (_ → ∀ f ∈ filesToDelete _, _) ∧
    ∀ storage ∈ run.cfg.target, (∀ f ∈ filesToDelete _, _) → ∀ p ∈ Retention.toDelete _ _,
      ∀ b ∈ d.copies, _)))

/-- The row of a copy takes it to be there. -/
structure Covers (e : BackupExecution) (b : BackupCopy) : Prop where
  locally : b.place = none → e.localStorageDeleted = false
  inS3 : b.place ≠ none → e.s3StorageDeleted = false
  uploaded : b.place ≠ none → e.status = .success → e.s3Uploaded ≠ none
  filename : e.status = .success → e.filename = some b.filename

structure Known (d : CopyStore) : Prop where
  copy : ∀ b ∈ d.copies, ∃ e, d.executions.get? b.execution = some e ∧ Covers e b
  unfinished : ∀ i e, d.executions.get? i = some e → e.status ≠ .success →
    e.localStorageDeleted = false
  named : ∀ i e, d.executions.get? i = some e → e.status = .success →
    ∃ f, e.filename = some f ∧ Value.truthy (.string f) = true

namespace Known

theorem noneOrphaned (h : d.Known) : d.NoneOrphaned := by
  intro b hb
  obtain ⟨e, he, -⟩ := h.copy b hb
  rw [he]
  rfl

theorem markStaleExecutionsAsFailed (h : d.Known) (staleBefore : Nat) :
    (d.markStaleExecutionsAsFailed staleBefore).Known where
  copy b hb := by
    obtain ⟨e, he, hcovers⟩ := h.copy b hb
    refine ⟨_, by rw [CopyStore.markStaleExecutionsAsFailed, Table.get?_updateWhere, he,
      Option.map_some], ?_⟩
    split
    · exact ⟨hcovers.locally, hcovers.inS3, fun _ hsuccess => (by cases hsuccess),
        fun hsuccess => (by cases hsuccess)⟩
    · exact hcovers
  unfinished i e' he' hstatus := by
    rw [CopyStore.markStaleExecutionsAsFailed, Table.get?_updateWhere] at he'
    obtain ⟨e, he, rfl⟩ := Option.map_eq_some_iff.mp he'
    split at hstatus
    · next hstale =>
        rw [if_pos hstale]
        refine h.unfinished i e he fun hsuccess => ?_
        rw [hsuccess] at hstale
        cases hstale
    · next hstale =>
        rw [if_neg hstale]
        exact h.unfinished i e he hstatus
  named i e' he' hstatus := by
    rw [CopyStore.markStaleExecutionsAsFailed, Table.get?_updateWhere] at he'
    obtain ⟨e, he, rfl⟩ := Option.map_eq_some_iff.mp he'
    split at hstatus
    · cases hstatus
    · next hstale =>
        rw [if_neg hstale]
        exact h.named i e he hstatus

end Known

/-- What the copies are after a pass: those there were, and its own. -/
theorem mem_copies_dump {b : BackupCopy} (hb : b ∈ (d.dump cfg a).copies) :
    b ∈ d.copies ∨ b.execution = d.executions.nextId ∧ b.filename = cfg.location a ∧
      (b.place = none ∧ cfg.writes a = true ∧ cfg.takes a = false ∨
        ∃ storage, b.place = some storage ∧ cfg.storesIn a = some storage) := by
  have hin_written : b ∈ d.written cfg a → b ∈ d.copies ∨
      b = ⟨none, cfg.location a, d.executions.nextId⟩ ∧ cfg.writes a = true := by
    intro h
    rw [written] at h
    split at h
    · next hwrites =>
        rcases mem_putCopy.mp h with rfl | ⟨h, -⟩
        · exact .inr ⟨rfl, hwrites⟩
        · exact .inl h
    · exact .inl h
  have hin_kept : b ∈ d.kept cfg a → b ∈ d.copies ∨
      b = ⟨none, cfg.location a, d.executions.nextId⟩ ∧ cfg.writes a = true ∧
        cfg.takes a = false := by
    intro h
    rw [kept] at h
    split at h
    · obtain ⟨h, hstays⟩ := mem_removeCopies.mp h
      rcases hin_written h with h | ⟨rfl, -⟩
      · exact .inl h
      · exact absurd ⟨rfl, beq_self_eq_true _⟩ hstays
    · next htakes =>
        rcases hin_written h with h | ⟨rfl, hwrites⟩
        · exact .inl h
        · exact .inr ⟨rfl, hwrites, Bool.eq_false_iff.mpr htakes⟩
  rw [CopyStore.dump] at hb
  dsimp only at hb
  cases hstores : cfg.storesIn a with
  | none =>
      rw [hstores, Option.elim_none] at hb
      rcases hin_kept hb with h | ⟨rfl, hwrites, htakes⟩
      · exact .inl h
      · exact .inr ⟨rfl, rfl, .inl ⟨rfl, hwrites, htakes⟩⟩
  | some storage =>
      rw [hstores, Option.elim_some] at hb
      rcases mem_putCopy.mp hb with rfl | ⟨hb, -⟩
      · exact .inr ⟨rfl, rfl, .inr ⟨storage, rfl, rfl⟩⟩
      · rcases hin_kept hb with h | ⟨rfl, hwrites, htakes⟩
        · exact .inl h
        · exact .inr ⟨rfl, rfl, .inl ⟨rfl, hwrites, htakes⟩⟩

theorem succeeds_of_status (h : (cfg.execution a).status = .success) : cfg.succeeds a = true := by
  rw [CopySettings.execution] at h
  split at h
  · cases h
  · next hdies =>
      rw [CopySettings.succeeds, Bool.eq_false_iff.mpr hdies]
      rw [BackupSchedule.execution] at h
      dsimp only at h
      split at h
      · next hsucceeds => exact hsucceeds
      · cases h

theorem execution_localStorageDeleted :
    (cfg.execution a).localStorageDeleted = cfg.deletesLocally a := by
  rw [CopySettings.execution]
  split
  · next hdies =>
      rw [CopySettings.deletesLocally, CopySettings.succeeds, hdies]
      rfl
  · rfl

theorem execution_s3StorageDeleted : (cfg.execution a).s3StorageDeleted = false := by
  rw [CopySettings.execution]
  split <;> rfl

theorem execution_filename (h : cfg.succeeds a = true) :
    (cfg.execution a).filename = some (cfg.location a) := by
  rw [CopySettings.succeeds, Bool.and_eq_true, Bool.not_eq_true'] at h
  rw [CopySettings.execution, h.1, if_neg Bool.false_ne_true, BackupSchedule.execution]
  dsimp only
  rw [if_pos h.2]
  rfl

theorem execution_s3Uploaded (h : cfg.succeeds a = true) :
    (cfg.execution a).s3Uploaded = cfg.target.map fun _ => a.upload.uploaded := by
  rw [CopySettings.succeeds, Bool.and_eq_true, Bool.not_eq_true'] at h
  rw [CopySettings.execution, h.1, if_neg Bool.false_ne_true, BackupSchedule.execution]
  dsimp only
  rw [if_pos h.2]
  rfl

namespace Known

theorem dump (h : d.Known) (hremoves : cfg.deletesLocally a = true → a.removes = true) :
    (d.dump cfg a).Known where
  copy b hb := by
    rcases mem_copies_dump hb with hb | ⟨hid, hname, hplace⟩
    · obtain ⟨e, he, hcovers⟩ := h.copy b hb
      exact ⟨e, Table.get?_insert_of_some _ he, hcovers⟩
    · refine ⟨cfg.execution a, by rw [hid]; exact Table.get?_insert_self .., ?_⟩
      have hfilename : (cfg.execution a).status = .success →
          (cfg.execution a).filename = some b.filename := fun hstatus => by
        rw [hname]
        exact execution_filename (succeeds_of_status hstatus)
      rcases hplace with ⟨hnone, -, htakes⟩ | ⟨storage, hsome, hstores⟩
      · refine ⟨fun _ => ?_, fun hne => absurd hnone hne, fun hne => absurd hnone hne, hfilename⟩
        rw [execution_localStorageDeleted, ← Bool.not_eq_true]
        intro hdeletes
        -- an upload that is followed by the deletion takes the file
        have hsucceeds : cfg.succeeds a = true := by
          rw [CopySettings.deletesLocally, Bool.and_eq_true, Bool.and_eq_true,
            Bool.and_eq_true] at hdeletes
          exact hdeletes.1.1.1
        have hlives : (!a.dies) = true := by
          rw [CopySettings.succeeds, Bool.and_eq_true] at hsucceeds
          exact hsucceeds.1
        rw [CopySettings.takes, hlives, hremoves hdeletes, hsucceeds, hdeletes] at htakes
        cases htakes
      · refine ⟨fun hnone => ?_, fun _ => execution_s3StorageDeleted, fun _ hstatus => ?_,
          hfilename⟩
        · rw [hsome] at hnone
          cases hnone
        · rw [execution_s3Uploaded (succeeds_of_status hstatus)]
          rw [CopySettings.storesIn] at hstores
          split at hstores
          · rw [hstores]
            exact Option.some_ne_none _
          · cases hstores
  unfinished i e he hstatus := by
    rw [CopyStore.dump, Table.get?_insert] at he
    split at he
    · obtain rfl := Option.some.inj he
      rw [execution_localStorageDeleted, ← Bool.not_eq_true]
      intro hdeletes
      rw [CopySettings.deletesLocally, Bool.and_eq_true, Bool.and_eq_true,
        Bool.and_eq_true, CopySettings.succeeds, Bool.and_eq_true, Bool.not_eq_true'] at hdeletes
      obtain ⟨⟨⟨⟨hdies, hdumped⟩, -⟩, -⟩, -⟩ := hdeletes
      refine hstatus ?_
      rw [CopySettings.execution, hdies, if_neg Bool.false_ne_true, BackupSchedule.execution]
      exact if_pos hdumped
    · exact h.unfinished i e he hstatus
  named i e he hstatus := by
    rw [CopyStore.dump, Table.get?_insert] at he
    split at he
    · obtain rfl := Option.some.inj he
      exact ⟨_, execution_filename (succeeds_of_status hstatus), truthy_backupLocation _⟩
    · exact h.named i e he hstatus

theorem dumps : ∀ {attempts : List CopyAttempt} {d : CopyStore}, d.Known →
    (∀ a ∈ attempts, cfg.deletesLocally a = true → a.removes = true) →
    d.dumps cfg attempts = some d' → d'.Known ∧
      ∀ b ∈ d'.copies, b ∈ d.copies ∨ d.executions.nextId ≤ b.execution ∧
        (b.place = none ∨ b.place = cfg.target)
  | [], _, h, _, hd => by cases hd; exact ⟨h, fun b hb => .inl hb⟩
  | a :: rest, d, h, hremoves, hd => by
      rw [CopyStore.dumps] at hd
      split at hd
      · obtain ⟨hknown, hnew⟩ := dumps (h.dump (hremoves a (List.mem_cons_self ..)))
          (fun b hb => hremoves b (List.mem_cons_of_mem _ hb)) hd
        refine ⟨hknown, fun b hb => ?_⟩
        rcases hnew b hb with hb | ⟨hid, hplace⟩
        · rcases mem_copies_dump hb with hb | ⟨hid, -, hplace⟩
          · exact .inl hb
          · refine .inr ⟨hid.ge, ?_⟩
            rcases hplace with ⟨hnone, -⟩ | ⟨storage, hsome, hstores⟩
            · exact .inl hnone
            · right
              rw [CopySettings.storesIn] at hstores
              split at hstores
              · rw [hsome, hstores]
              · cases hstores
        · exact .inr ⟨Nat.le_of_succ_le hid, hplace⟩
      · cases hd

/-- An execution that a clean-up selects, and the file of its copies. -/
theorem selected (h : d.Known) {deleted : BackupExecution → Bool} {rows : List BackupRow}
    {r : Retention} (hlists : d.backups.lists deleted rows = true) {i : Nat} {e : BackupExecution}
    (he : d.executions.get? i = some e) (hany : (r.toDelete rows).any (·.1 == i) = true) :
    e.status = .success ∧ (i, e) ∈ r.toDelete rows ∧
      ∀ b, Covers e b → b.filename ∈ filesToDelete (r.toDelete rows) := by
  obtain ⟨p, hp, hid⟩ := List.any_eq_true.mp hany
  obtain ⟨hget, hstatus, -⟩ := (BackupStore.mem_lists hlists).mp (Retention.toDelete_subset p hp)
  rw [beq_iff_eq.mp hid] at hget
  have hrow : p = (i, e) := Prod.ext (beq_iff_eq.mp hid) (Option.some.inj (hget.symm.trans he))
  subst hrow
  refine ⟨hstatus, hp, fun b hcovers => ?_⟩
  obtain ⟨f, hf, htruthy⟩ := h.named i e he hstatus
  obtain rfl := Option.some.inj ((hcovers.filename hstatus).symm.trans hf)
  exact BackupStore.mem_filesToDelete.mpr ⟨htruthy, (i, e), hp, hf⟩

/-- The local clean-up, where `rm` takes what it is given. -/
theorem deleteOldBackupsLocally (h : d.Known) {r : Retention}
    (hlists : d.backups.lists (·.localStorageDeleted) c.locally = true)
    (hremoves : ∀ f ∈ filesToDelete (r.toDelete c.locally), c.removes f = true) :
    (d.deleteOldBackupsLocally r c).Known := by
  have hcopies := copies_deleteOldBackupsLocally (d := d) (c := c) r
  rw [CopyStore.deleteOldBackupsLocally] at hcopies ⊢
  split
  · exact h
  · next hsome =>
      rw [if_neg hsome] at hcopies
      refine ⟨fun b hb => ?_, fun i e' he' hstatus => ?_, fun i e' he' hstatus => ?_⟩
      · rw [hcopies] at hb
        obtain ⟨hb, hstays⟩ := mem_removeCopies.mp hb
        obtain ⟨e, he, hcovers⟩ := h.copy b hb
        refine ⟨_, by rw [Table.get?_updateWhere, he, Option.map_some], ?_⟩
        split
        · next hnoted =>
            refine ⟨fun hnone => ?_, hcovers.inS3, hcovers.uploaded, hcovers.filename⟩
            -- the file of a noted execution was given to `rm`
            have hin := (h.selected hlists he hnoted).2.2 b hcovers
            refine absurd ⟨hnone, ?_⟩ hstays
            rw [Bool.and_eq_true, List.contains_iff_mem]
            exact ⟨hin, hremoves _ hin⟩
        · exact hcovers
      · rw [Table.get?_updateWhere] at he'
        obtain ⟨e, he, rfl⟩ := Option.map_eq_some_iff.mp he'
        split at hstatus
        · next hnoted => exact absurd (h.selected hlists he hnoted).1 hstatus
        · next hnoted =>
            rw [if_neg hnoted]
            exact h.unfinished i e he hstatus
      · rw [Table.get?_updateWhere] at he'
        obtain ⟨e, he, rfl⟩ := Option.map_eq_some_iff.mp he'
        split at hstatus <;> split <;> exact h.named i e he hstatus

/-- The clean-up for S3, where what is selected has no object elsewhere. -/
theorem deleteOldBackupsFromS3 (h : d.Known) {r : Retention} {storage : Nat}
    (hlists : d.backups.lists (·.s3StorageDeleted) c.s3 = true)
    (helsewhere : (∀ f ∈ filesToDelete (r.toDelete c.s3), c.s3Deletes f = true) →
      ∀ p ∈ r.toDelete c.s3, ∀ b ∈ d.copies, b.execution = p.1 →
        b.place = none ∨ b.place = some storage) :
    (d.deleteOldBackupsFromS3 r storage c).Known := by
  rw [CopyStore.deleteOldBackupsFromS3]
  split
  · exact h
  · by_cases hall : (filesToDelete (r.toDelete c.s3)).all c.s3Deletes = true
    · have hdeletes := List.all_eq_true.mp hall
      rw [if_pos hall]
      refine ⟨fun b hb => ?_, fun i e' he' hstatus => ?_, fun i e' he' hstatus => ?_⟩
      · dsimp only at hb
        obtain ⟨hb, hstays⟩ := mem_removeCopies.mp hb
        obtain ⟨e, he, hcovers⟩ := h.copy b hb
        refine ⟨_, by rw [Table.get?_updateWhere, he, Option.map_some], ?_⟩
        split
        · next hnoted =>
            refine ⟨hcovers.locally, fun hplace => ?_, hcovers.uploaded, hcovers.filename⟩
            obtain ⟨-, hmem, hfile⟩ := h.selected hlists he hnoted
            have hin := hfile b hcovers
            rcases helsewhere hdeletes _ hmem b hb rfl with hnone | hhere
            · exact absurd hnone hplace
            · refine absurd ⟨hhere, ?_⟩ hstays
              rw [Bool.and_eq_true, List.contains_iff_mem]
              exact ⟨hin, hdeletes _ hin⟩
        · exact hcovers
      · rw [Table.get?_updateWhere] at he'
        obtain ⟨e, he, rfl⟩ := Option.map_eq_some_iff.mp he'
        split at hstatus <;> split <;> exact h.unfinished i e he hstatus
      · rw [Table.get?_updateWhere] at he'
        obtain ⟨e, he, rfl⟩ := Option.map_eq_some_iff.mp he'
        split at hstatus <;> split <;> exact h.named i e he hstatus
    · rw [if_neg hall]
      exact ⟨fun b hb => h.copy b (List.mem_filter.mp hb).1, h.unfinished, h.named⟩

/-- An execution with a copy is not taken for gone. -/
theorem deleteGone (h : d.Known) : d.deleteGone.Known where
  copy b hb := by
    obtain ⟨e, he, hcovers⟩ := h.copy b hb
    refine ⟨e, Table.get?_deleteWhere.mpr ⟨Table.get?_deleteWhere.mpr ⟨he, ?_⟩, ?_⟩, hcovers⟩
    · by_cases hplace : b.place = none
      · rw [hcovers.locally hplace, Bool.false_and]
      · rw [hcovers.inS3 hplace, Bool.and_false]
    · by_cases hplace : b.place = none
      · rw [hcovers.locally hplace, Bool.false_and]
      · cases hlocal : e.localStorageDeleted with
        | false => rfl
        | true =>
            have hstatus : e.status = .success := by
              by_contra hne
              rw [h.unfinished _ e he hne] at hlocal
              cases hlocal
            rw [Bool.true_and, Option.isNone_eq_false_iff, Option.isSome_iff_ne_none]
            exact hcovers.uploaded hplace hstatus
  unfinished i e he :=
    h.unfinished i e (Table.get?_deleteWhere.mp (Table.get?_deleteWhere.mp he).1).1
  named i e he := h.named i e (Table.get?_deleteWhere.mp (Table.get?_deleteWhere.mp he).1).1

theorem handle {run : CopyRun} (h : d.Known) (hcareful : d.Careful run)
    (hd : d.handle run = some d') : d'.Known := by
  rw [CopyStore.handle, Option.bind_eq_bind, Option.bind_eq_some_iff] at hd
  obtain ⟨d₀, hd₀, hd⟩ := hd
  obtain ⟨hknown, hnew⟩ := (h.markStaleExecutionsAsFailed run.staleBefore).dumps hcareful.1 hd₀
  split at hd
  · next hcleans =>
      obtain ⟨hlocally, hs3⟩ := hcareful.2 hcleans
      obtain ⟨d₁, d₂, rfl, hlocal, hcloud⟩ := removeOldBackups_eq hd
      have hknown₁ : d₁.Known := by
        rcases hlocal with ⟨-, rfl⟩ | ⟨hon, hlists, rfl⟩
        · exact hknown
        · exact hknown.deleteOldBackupsLocally hlists (hlocally hon)
      have hcopies₁ : ∀ b ∈ d₁.copies, b ∈ d₀.copies := fun b hb => by
        rcases hlocal with ⟨-, rfl⟩ | ⟨-, -, rfl⟩
        · exact hb
        · rw [copies_deleteOldBackupsLocally] at hb
          exact (mem_removeCopies.mp hb).1
      refine deleteGone ?_
      rcases hcloud with ⟨-, rfl⟩ | ⟨storage, htarget, hlists, rfl⟩
      · exact hknown₁
      · refine hknown₁.deleteOldBackupsFromS3 hlists fun hdeletes p hp b hb hid => ?_
        rcases hnew b (hcopies₁ b hb) with hold | ⟨-, hplace⟩
        · exact hs3 storage htarget hdeletes p hp b hold hid
        · rwa [htarget] at hplace
  · cases hd
    exact hknown

end Known

theorem emptyCopies_known : emptyCopies.Known where
  copy _ hb := absurd hb List.not_mem_nil
  unfinished _ _ he := by cases he
  named _ _ he := by cases he

/-- A row is deleted with the last copy of its archive, throughout runs in which `rm`
takes what it is given and no object is left in a storage that was selected before. -/
theorem none_orphaned {trail : List (CopyStore × CopyRun)} {u : CopyStore}
    (hrun : Runs handle emptyCopies trail u) (hcareful : ∀ p ∈ trail, p.1.Careful p.2) :
    Throughout NoneOrphaned trail u :=
  (hrun.throughout (I := Known) (fun _ _ _ h hok hd => h.handle hok hd) emptyCopies_known
    hcareful).mono fun _ h => h.noneOrphaned

instance (d : CopyStore) : Decidable d.NoneOrphaned :=
  inferInstanceAs (Decidable (∀ b ∈ d.copies, _))

theorem none_orphaned_in_two_runs : ∃ trail d, Runs handle emptyCopies trail d ∧
    d.executions.rows.length = 1 ∧ Throughout NoneOrphaned trail d := by
  obtain ⟨trail, d, hrun, hok, hd⟩ := exists_runs_of_execIf handle Careful
    (shopRuns (shopCopies 1 false) (.stored true) true) emptyCopies
    (fun d => d.executions.rows.length == 1) (by decide +kernel)
  exact ⟨trail, d, hrun, beq_iff_eq.mp hd, none_orphaned hrun hok⟩

/-- Where `rm` fails, the row goes and the file stays. -/
theorem file_orphaned : ∃ trail d, Runs handle emptyCopies trail d ∧
    ¬ Throughout NoneOrphaned trail d := by
  obtain ⟨trail, d, hrun, -, hlost⟩ := exists_runs_of_execIf handle Any
    (shopRuns (shopCopies 1 false) (.stored true) false) emptyCopies
    (fun d => !decide d.NoneOrphaned) (by decide +kernel)
  rw [Bool.not_eq_true', decide_eq_false_iff_not] at hlost
  exact ⟨trail, d, hrun, fun h => hlost h.2⟩

end CopyStore

end OnePloy
