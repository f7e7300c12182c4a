import OnePloy.DatabaseCopies
import OnePloy.VolumeRetention
import Mathlib.Data.List.MinMax
import Mathlib.Data.Prod.Lex

/-!
# Copies of volume backups

A `VolumeBackupJob` from its row to its clean-up, `failed()` of a job whose worker has
died, and the recovery of an upload. Every deletion is asked how it went, and uses the
storage of the execution; but an execution whose upload was never recorded is taken to
have no copy in S3, even while `s3_cleanup_pending` says that one is to be cleaned up.

The states of `VolumeRetention` are extended by that column and by the uploads that
succeeded, the latest first.
-/

namespace OnePloy

open Conc Php

/-- How a deletion ends: one that throws may have taken the file. -/
inductive Deletion
  | done
  | throws (taken : Bool)
  deriving DecidableEq, Repr

def Deletion.isDone : Deletion → Bool
  | .done => true
  | .throws _ => false

def Deletion.takes : Deletion → Bool
  | .done => true
  | .throws taken => taken

structure VolumeCopies extends VolumeStore where
  /-- The column `s3_cleanup_pending`. -/
  pending : Nat → Bool
  uploads : List UploadRecord

/-! ## A job -/

/-- What is backed up, as its archives are named: the directory, and the type and the
slug of the name. -/
structure VolumeTarget where
  directory : String
  name : String

def VolumeTarget.backupLocation (target : VolumeTarget) (time : Nat) : String :=
  target.directory ++ "/" ++ target.name ++ "-" ++ toString time ++ ".tar.gz"

inductive VolumeUpload
  | stored
  /-- What is `left` of it is cleaned up at once. -/
  | failed (left : Bool) (cleanup : Deletion)
  deriving DecidableEq, Repr

/-- How a job ends. In an exception, or when the worker dies, there may be a file, and
an object if `uploading` says that the upload had begun. -/
inductive VolumeOutcome
  | archived (size : Nat) (upload : VolumeUpload) (removal : Deletion)
  | threw (uploading file object : Bool) (cleanup removal : Deletion)
  | died (uploading file object : Bool)
  deriving DecidableEq, Repr

structure VolumeJob where
  cfg : VolumeSchedule
  target : VolumeTarget
  createdAt : Nat
  time : Nat
  outcome : VolumeOutcome
  cleanUp : VolumeCleanUp

namespace VolumeJob

variable (job : VolumeJob)

def location : String := job.target.backupLocation job.time

/-- `s3_storage_id` of the execution. -/
def storage : Option Nat := if job.cfg.saveS3 then job.cfg.s3 else none

def isUploaded : Bool :=
  match job.outcome with
  | .archived _ .stored _ => job.storage.isSome
  | _ => false

/-- The upload has been cleaned up; without a storage `cleanupS3Upload` throws. -/
def isCleaned : Bool :=
  match job.outcome with
  | .archived _ (.failed _ cleanup) _ => job.storage.isSome && cleanup.isDone
  | .threw uploading _ _ cleanup _ => uploading && job.storage.isSome && cleanup.isDone
  | _ => false

/-- `s3_cleanup_pending` as the job leaves it. -/
def isPending : Bool :=
  match job.outcome with
  | .archived .. => job.cfg.saveS3 && !job.isUploaded && !job.isCleaned
  | .threw uploading .. => job.cfg.saveS3 && uploading && !job.isCleaned
  | .died uploading .. => job.cfg.saveS3 && uploading

/-- Whether the archive is deleted on the server: by `disable_local_backup`, or because
the job has failed. -/
def removal : Option Deletion :=
  match job.outcome with
  | .archived _ _ removal =>
      if job.isUploaded && job.cfg.disableLocalBackup then some removal else none
  | .threw _ _ _ _ removal => some removal
  | .died .. => none

def writesFile : Bool :=
  match job.outcome with
  | .archived .. => true
  | .threw _ file .. => file
  | .died _ file _ => file

def takesFile : Bool := job.removal.any Deletion.takes

def writesObject : Bool :=
  match job.outcome with
  | .archived _ .stored _ => true
  | .archived _ (.failed left _) _ => left
  | .threw uploading _ object .. => uploading && object
  | .died uploading _ object => uploading && object

def takesObject : Bool :=
  match job.outcome with
  | .archived _ (.failed _ cleanup) _ => cleanup.takes
  | .threw uploading _ _ cleanup _ => uploading && cleanup.takes
  | _ => false

/-- The row as the job leaves it. -/
def row : VolumeArchive where
  createdAt := job.createdAt
  status :=
    match job.outcome with
    | .archived .. => .success
    | .threw .. => .failed
    | .died .. => .running
  size :=
    match job.outcome with
    | .archived size .. => size
    | _ => 0
  filename :=
    match job.outcome with
    | .threw _ _ _ _ removal =>
        if removal.isDone && !job.isPending then none else some job.location
    | _ => some job.location
  s3StorageId := job.storage
  localStorageDeleted := job.removal.any Deletion.isDone
  s3StorageDeleted := job.isCleaned
  s3Uploaded :=
    match job.outcome with
    | .archived .. => if job.cfg.saveS3 then some job.isUploaded else none
    | _ => none

end VolumeJob

namespace VolumeCopies

def setFile (v : VolumeCopies) (filename : String) (owner : Option Nat) : VolumeCopies :=
  { v with files := Function.update v.files filename owner }

def setObject (v : VolumeCopies) (storage : Nat) (filename : String) (owner : Option Nat) :
    VolumeCopies :=
  { v with objects := fun s f => if s = storage ∧ f = filename then owner else v.objects s f }

/-- A job without its clean-up. -/
def perform (v : VolumeCopies) (job : VolumeJob) : VolumeCopies :=
  let id := v.executions.nextId
  { executions := v.executions.insert job.row
    files := fun f =>
      if f = job.location then
        if job.takesFile then none else if job.writesFile then some id else v.files f
      else v.files f
    objects := fun s f =>
      if job.storage = some s ∧ f = job.location then
        if job.takesObject then none else if job.writesObject then some id else v.objects s f
      else v.objects s f
    pending := Function.update v.pending id job.isPending
    uploads :=
      if job.isUploaded then
        job.storage.elim v.uploads fun s => ⟨id, s, job.location⟩ :: v.uploads
      else v.uploads }

/-- `VolumeBackupJob::handle`: what is archived and not empty is followed by the
clean-up. -/
def handle (v : VolumeCopies) (job : VolumeJob) : Option VolumeCopies :=
  match job.outcome with
  | .archived size .. =>
      if size = 0 then none
      else
        ((v.perform job).toVolumeStore.removeExpiredBackups job.cfg job.cleanUp).map fun w =>
          { v.perform job with toVolumeStore := w }
  | _ => some (v.perform job)

/-! ## Recovery -/

/-- `cleanupS3Upload`: it throws without a storage or a filename. -/
def cleanupS3Upload (v : VolumeCopies) (id : Nat) (e : VolumeArchive) (cleanup : Deletion) :
    VolumeCopies :=
  match e.s3StorageId, e.filename with
  | some storage, some filename =>
      let v := if cleanup.takes then v.setObject storage filename none else v
      if cleanup.isDone then
        { v with
          executions := v.executions.modify id ({ · with s3StorageDeleted := true })
          pending := Function.update v.pending id false }
      else v
  | _, _ => v

/-- `where('status', 'running')->latest('id')->first()`, of executions that come by the
time of their creation. -/
def latestRunning (v : VolumeCopies) : Option VolumeRow :=
  (v.executions.select fun _ e => e.status == .running).argmax fun p =>
    toLex (p.2.createdAt, p.1)

/-- `VolumeBackupJob::failed`. -/
def failed (v : VolumeCopies) (cleanup removal : Deletion) : VolumeCopies :=
  match v.latestRunning with
  | none => v
  | some (id, e) =>
      let v := if v.pending id then v.cleanupS3Upload id e cleanup else v
      match e.filename with
      | none => { v with executions := v.executions.modify id ({ · with status := .failed }) }
      | some filename =>
          let v := if removal.takes then v.setFile filename none else v
          { v with
            executions := v.executions.modify id fun row =>
              { row with
                status := .failed
                filename := if removal.isDone && !v.pending id then none else some filename
                localStorageDeleted := row.localStorageDeleted || removal.isDone } }

/-- `VolumeBackupRecoveryJob::handle`. -/
def recover (v : VolumeCopies) (id : Nat) (cleanup : Deletion) : Option VolumeCopies :=
  (v.executions.get? id).map fun e =>
    if v.pending id then v.cleanupS3Upload id e cleanup else v

end VolumeCopies

inductive VolumeEvent
  | run (job : VolumeJob)
  | failed (cleanup removal : Deletion)
  | recover (id : Nat) (cleanup : Deletion)

def VolumeCopies.step (v : VolumeCopies) : VolumeEvent → Option VolumeCopies
  | .run job => v.handle job
  | .failed cleanup removal => some (v.failed cleanup removal)
  | .recover id cleanup => v.recover id cleanup

/-- A schedule that has not run yet. -/
def emptyVolume : VolumeCopies where
  executions := .empty
  files _ := none
  objects _ _ := none
  pending _ := false
  uploads := []

/-! ## Copies and their executions -/

namespace VolumeStore

/-- An execution that notes no deletion has what it owns under its own name and in its
own storage. What is in S3 was uploaded, or is still to be cleaned up. -/
structure Known (pending : Nat → Bool) (v : VolumeStore) : Prop where
  file : ∀ f i, v.files f = some i → ∃ e, v.executions.get? i = some e ∧
    e.localStorageDeleted = false ∧ e.filename = some f
  object : ∀ s f i, v.objects s f = some i → ∃ e, v.executions.get? i = some e ∧
    e.s3StorageDeleted = false ∧ e.filename = some f ∧ e.s3StorageId = some s ∧
      (e.s3Uploaded = none → pending i = true)
  settled : ∀ i e, v.executions.get? i = some e → e.status = .success → e.s3Uploaded = none →
    pending i = false
  unfinished : ∀ i e, v.executions.get? i = some e → e.status ≠ .success → e.s3Uploaded = none
  named : ∀ i e f, v.executions.get? i = some e → e.filename = some f →
    Value.truthy (.string f) = true

/-- No execution that is about to be deleted has an object that is still to be cleaned up. -/
def NoneWaits (pending : Nat → Bool) (v : VolumeStore) : Prop :=
  ∀ i e, v.executions.get? i = some e → isGone e = true → pending i = true →
    ∀ s f, v.objects s f ≠ some i

variable {pending : Nat → Bool} {v : VolumeStore} {c : VolumeCleanUp}

/-- Files and objects may go. -/
theorem Known.of_le (h : Known pending v) {v' : VolumeStore}
    (hrows : v'.executions = v.executions)
    (hfiles : ∀ f i, v'.files f = some i → v.files f = some i)
    (hobjects : ∀ s f i, v'.objects s f = some i → v.objects s f = some i) :
    Known pending v' := by
  refine ⟨fun f i hf => ?_, fun s f i hf => ?_, ?_, ?_, ?_⟩ <;> rw [hrows]
  · exact h.file f i (hfiles f i hf)
  · exact h.object s f i (hobjects s f i hf)
  · exact h.settled
  · exact h.unfinished
  · exact h.named

theorem files_of_removeFiles {gone : String → Bool} {f : String} {i : Nat}
    (h : (v.removeFiles gone).files f = some i) : gone f = false ∧ v.files f = some i := by
  rw [removeFiles] at h
  dsimp only at h
  split at h
  · cases h
  · next hkept => exact ⟨Bool.eq_false_iff.mpr hkept, h⟩

theorem objects_of_removeObjects {storage s : Nat} {gone : String → Bool} {f : String} {i : Nat}
    (h : (v.removeObjects storage gone).objects s f = some i) :
    (s = storage → gone f = false) ∧ v.objects s f = some i := by
  rw [removeObjects] at h
  dsimp only at h
  split at h
  · cases h
  · next hkept => exact ⟨fun hs => Bool.eq_false_iff.mpr fun hgone => hkept ⟨hs, hgone⟩, h⟩

/-- A deletion may be noted where nothing is left. -/
theorem Known.note (h : Known pending v) {rows : List VolumeRow}
    {f : VolumeArchive → VolumeArchive}
    (hf : ∀ e, (f e).status = e.status ∧ (f e).filename = e.filename ∧
      (f e).s3StorageId = e.s3StorageId ∧ (f e).s3Uploaded = e.s3Uploaded)
    (hlocal : ∀ i, rows.any (·.1 == i) = true → (∀ g, v.files g ≠ some i) ∨
      ∀ e, (f e).localStorageDeleted = e.localStorageDeleted)
    (hs3 : ∀ i, rows.any (·.1 == i) = true → (∀ s g, v.objects s g ≠ some i) ∨
      ∀ e, (f e).s3StorageDeleted = e.s3StorageDeleted) :
    Known pending (v.note rows f) := by
  have hrow : ∀ {i e'}, (v.note rows f).executions.get? i = some e' →
      ∃ e, v.executions.get? i = some e ∧ e'.status = e.status ∧ e'.filename = e.filename ∧
        e'.s3Uploaded = e.s3Uploaded := by
    intro i e' he'
    rw [get?_note] at he'
    obtain ⟨e, he, rfl⟩ := Option.map_eq_some_iff.mp he'
    refine ⟨e, he, ?_⟩
    split
    · exact ⟨(hf e).1, (hf e).2.1, (hf e).2.2.2⟩
    · exact ⟨rfl, rfl, rfl⟩
  refine ⟨fun g i hg => ?_, fun s g i hg => ?_, fun i e' he' hstatus hnone => ?_,
    fun i e' he' hstatus => ?_, fun i e' g he' hg => ?_⟩
  · obtain ⟨e, he, hkept, hname⟩ := h.file g i hg
    refine ⟨_, by rw [get?_note, he, Option.map_some], ?_⟩
    split
    · next hnoted =>
        rcases hlocal i hnoted with hgone | hsame
        · exact absurd hg (hgone g)
        · exact ⟨(hsame e).trans hkept, (hf e).2.1.trans hname⟩
    · exact ⟨hkept, hname⟩
  · obtain ⟨e, he, hkept, hname, hstorage, hwaits⟩ := h.object s g i hg
    refine ⟨_, by rw [get?_note, he, Option.map_some], ?_⟩
    split
    · next hnoted =>
        rcases hs3 i hnoted with hgone | hsame
        · exact absurd hg (hgone s g)
        · obtain ⟨-, hname', hstorage', hup⟩ := hf e
          exact ⟨(hsame e).trans hkept, hname'.trans hname, hstorage'.trans hstorage,
            fun hnone => hwaits (hup ▸ hnone)⟩
    · exact ⟨hkept, hname, hstorage, hwaits⟩
  · obtain ⟨e, he, hsame, -, hup⟩ := hrow he'
    exact h.settled i e he (hsame ▸ hstatus) (hup ▸ hnone)
  · obtain ⟨e, he, hsame, -, hup⟩ := hrow he'
    rw [hup]
    exact h.unfinished i e he (hsame ▸ hstatus)
  · obtain ⟨e, he, -, hname, -⟩ := hrow he'
    exact h.named i e g he (hname ▸ hg)

/-- Nothing new waits: what is uploaded or settled has nothing to be cleaned up. -/
theorem NoneWaits.of_rows (h : NoneWaits pending v) (hknown : Known pending v) {v' : VolumeStore}
    (hknown' : Known pending v')
    (hrows : ∀ i e', v'.executions.get? i = some e' → ∃ e, v.executions.get? i = some e ∧
      (e = e' ∨ e.status = .success ∧ e'.s3Uploaded = e.s3Uploaded))
    (hobjects : ∀ s f i, v'.objects s f = some i → v.objects s f = some i) :
    NoneWaits pending v' := by
  intro i e' he' hgone hpending s f hobject
  obtain ⟨e, he, rfl | ⟨hstatus, hup⟩⟩ := hrows i e' he'
  · exact h i e he hgone hpending s f (hobjects s f i hobject)
  · obtain ⟨e'', he'', hkept, -, -, -⟩ := hknown'.object s f i hobject
    obtain rfl := Option.some.inj (he'.symm.trans he'')
    rw [isGone, hkept, Bool.false_or, Bool.and_eq_true, Option.isNone_iff_eq_none, hup] at hgone
    rw [hknown.settled i e he hstatus hgone.2] at hpending
    cases hpending

/-- The local part of a clean-up. -/
theorem Known.expireLocally (h : Known pending v) (r : Retention)
    (hlists : v.lists hasLocalCopy c.locally = true) :
    Known pending (v.expireLocally r c).1 := by
  have hremoved : ∀ gone, Known pending (v.removeFiles gone) := fun gone =>
    h.of_le rfl (fun _ _ hf => (files_of_removeFiles hf).2) fun _ _ _ hf => hf
  rw [VolumeStore.expireLocally]
  split
  · exact h
  · split
    · refine (hremoved _).note (fun _ => ⟨rfl, rfl, rfl, rfl⟩) (fun i hnoted => .inl fun g hg => ?_)
        fun i _ => .inr fun _ => rfl
      obtain ⟨hkept, hg⟩ := files_of_removeFiles hg
      obtain ⟨e, he, -, hname⟩ := h.file g i hg
      obtain ⟨p, hp, hid⟩ := List.any_eq_true.mp hnoted
      have hget := ((mem_lists hlists).mp (outside_subset r c.now p hp)).1
      rw [beq_iff_eq.mp hid, he] at hget
      have hin : g ∈ archiveNames (executionsOutsideRetention r c.now c.locally) :=
        mem_archiveNames.mpr ⟨h.named i e g he hname, p, hp, Option.some.inj hget ▸ hname⟩
      rw [List.contains_iff_mem.mpr hin] at hkept
      cases hkept
    · exact hremoved _

theorem rows_expireLocally (r : Retention) (hlists : v.lists hasLocalCopy c.locally = true)
    {i : Nat} {e' : VolumeArchive} (he' : (v.expireLocally r c).1.executions.get? i = some e') :
    ∃ e, v.executions.get? i = some e ∧
      (e = e' ∨ e.status = .success ∧ e' = { e with localStorageDeleted := true }) := by
  rw [VolumeStore.expireLocally] at he'
  split at he'
  · exact ⟨e', he', .inl rfl⟩
  · split at he'
    · rw [get?_note] at he'
      obtain ⟨e, he, rfl⟩ := Option.map_eq_some_iff.mp he'
      refine ⟨e, he, ?_⟩
      split
      · next hnoted =>
          obtain ⟨p, hp, hid⟩ := List.any_eq_true.mp hnoted
          obtain ⟨hget, hstatus, -⟩ := (mem_lists hlists).mp (outside_subset r c.now p hp)
          have hsame : v.executions.get? i = some e := he
          rw [beq_iff_eq.mp hid, hsame] at hget
          obtain rfl := Option.some.inj hget
          exact .inr ⟨hstatus, rfl⟩
      · exact .inl rfl
    · exact ⟨e', he', .inl rfl⟩

theorem objects_expireLocally (r : Retention) :
    (v.expireLocally r c).1.objects = v.objects := by
  rw [VolumeStore.expireLocally]
  split
  · rfl
  · split <;> rfl

/-- The rows of a clean-up, as far as the table has kept them. -/
def Listed (v : VolumeStore) (expired : List VolumeRow) : Prop :=
  ∀ p ∈ expired, ∃ e, v.executions.get? p.1 = some e ∧ e.status = .success ∧
    e.filename = p.2.filename ∧ e.s3StorageId = p.2.s3StorageId

/-- What the clean-up for S3 changes: nothing but notes and objects, those of expired
executions. -/
structure Expires (expired : List VolumeRow) (v v' : VolumeStore) : Prop where
  listed : Listed v' expired
  same : ∀ i, (v'.executions.get? i).isSome = (v.executions.get? i).isSome
  row : ∀ i e', v'.executions.get? i = some e' → ∃ e, v.executions.get? i = some e ∧
    (e = e' ∨ e.status = .success ∧ (∃ p ∈ expired, p.1 = i) ∧
      e' = { e with s3StorageDeleted := true })
  object : ∀ s f i, v'.objects s f = some i → v.objects s f = some i
  gone : ∀ s f, v'.objects s f = none → v.objects s f = none ∨ ∃ p ∈ expired, p.2.filename = some f

theorem Expires.refl {expired : List VolumeRow} (hlisted : Listed v expired) :
    Expires expired v v :=
  ⟨hlisted, fun _ => rfl, fun _ e' he' => ⟨e', he', .inl rfl⟩, fun _ _ _ h => h,
    fun _ _ h => .inl h⟩

theorem Expires.trans {expired : List VolumeRow} {v₁ v₂ v₃ : VolumeStore}
    (h : Expires expired v₁ v₂) (h' : Expires expired v₂ v₃) : Expires expired v₁ v₃ where
  listed := h'.listed
  same i := (h'.same i).trans (h.same i)
  row i e₃ he₃ := by
    obtain ⟨e₂, he₂, hnote₂⟩ := h'.row i e₃ he₃
    obtain ⟨e₁, he₁, hnote₁⟩ := h.row i e₂ he₂
    refine ⟨e₁, he₁, ?_⟩
    rcases hnote₁ with rfl | ⟨hstatus, hin, rfl⟩
    · exact hnote₂
    · rcases hnote₂ with rfl | ⟨-, -, rfl⟩ <;> exact .inr ⟨hstatus, hin, rfl⟩
  object s f i hf := h.object s f i (h'.object s f i hf)
  gone s f hf := by
    rcases h'.gone s f hf with hf | hin
    · exact h.gone s f hf
    · exact .inr hin

theorem expires_expireGroup {expired : List VolumeRow} (hlisted : Listed v expired) (goesOn : Bool)
    (storage : Option Nat) :
    Expires expired v (expireGroup c expired (v, goesOn) storage).1 := by
  have hsame := Expires.refl hlisted
  unfold expireGroup
  split
  · exact hsame
  · cases storage with
    | none => exact hsame
    | some storage =>
        dsimp only
        set group := expired.filter (·.2.s3StorageId == some storage) with hgroup
        have hin : ∀ p ∈ group, p ∈ expired := fun p hp => List.mem_of_mem_filter hp
        have hnone : ∀ gone : String → Bool,
            (∀ f, gone f = true → f ∈ archiveNames group) → ∀ s f,
              (v.removeObjects storage gone).objects s f = none →
                v.objects s f = none ∨ ∃ p ∈ expired, p.2.filename = some f := by
          intro gone hnames s f hf
          rw [removeObjects] at hf
          dsimp only at hf
          split at hf
          · next htaken =>
              obtain ⟨-, p, hp, hname⟩ := mem_archiveNames.mp (hnames f htaken.2)
              exact .inr ⟨p, hin p hp, hname⟩
          · exact .inl hf
        split
        · exact hsame
        · split
          · exact hsame
          · split
            · refine ⟨fun p hp => ?_, fun i => ?_, fun i e' he' => ?_, fun s f i hf => ?_,
                hnone _ fun f hf => ?_⟩
              · obtain ⟨e, he, hstatus, hname, hstorage⟩ := hlisted p hp
                refine ⟨_, by rw [get?_note, show (v.removeObjects storage _).executions =
                  v.executions from rfl, he, Option.map_some], ?_⟩
                split <;> exact ⟨hstatus, hname, hstorage⟩
              · rw [get?_note, Option.isSome_map]
                rfl
              · rw [get?_note] at he'
                obtain ⟨e, he, rfl⟩ := Option.map_eq_some_iff.mp he'
                refine ⟨e, he, ?_⟩
                split
                · next hnoted =>
                    obtain ⟨p, hp, hid⟩ := List.any_eq_true.mp hnoted
                    obtain ⟨e₀, he₀, hstatus, -⟩ := hlisted p (hin p hp)
                    have hget : v.executions.get? i = some e := he
                    rw [beq_iff_eq.mp hid, hget] at he₀
                    obtain rfl := Option.some.inj he₀
                    exact .inr ⟨hstatus, ⟨p, hin p hp, beq_iff_eq.mp hid⟩, rfl⟩
                · exact .inl rfl
              · exact (objects_of_removeObjects hf).2
              · exact List.contains_iff_mem.mp hf
            · refine ⟨hlisted, hsame.same, hsame.row,
                fun s f i hf => (objects_of_removeObjects hf).2, hnone _ fun f hf => ?_⟩
              rw [Bool.and_eq_true, List.contains_iff_mem] at hf
              exact hf.1

theorem Known.expireGroup {expired : List VolumeRow} (h : Known pending v)
    (hlisted : Listed v expired) (goesOn : Bool) (storage : Option Nat) :
    Known pending (expireGroup c expired (v, goesOn) storage).1 := by
  have hremoved : ∀ storage gone, Known pending (v.removeObjects storage gone) :=
    fun storage gone =>
      h.of_le rfl (fun _ _ hf => hf) fun _ _ _ hf => (objects_of_removeObjects hf).2
  unfold VolumeStore.expireGroup
  split
  · exact h
  · cases storage with
    | none => exact h
    | some storage =>
        dsimp only
        split
        · exact h
        · split
          · exact h
          · split
            · refine (hremoved _ _).note (fun _ => ⟨rfl, rfl, rfl, rfl⟩)
                (fun i _ => .inr fun _ => rfl) fun i hnoted => .inl fun s g hg => ?_
              obtain ⟨hkept, hg⟩ := objects_of_removeObjects hg
              obtain ⟨e, he, -, hname, hstorage, -⟩ := h.object s g i hg
              obtain ⟨p, hp, hid⟩ := List.any_eq_true.mp hnoted
              obtain ⟨hp', hgroup⟩ := List.mem_filter.mp hp
              obtain ⟨e₀, he₀, -, hname₀, hstorage₀⟩ := hlisted p hp'
              rw [beq_iff_eq.mp hid, he] at he₀
              obtain rfl := Option.some.inj he₀
              -- the file of a noted execution was in its own storage, and was deleted there
              have hs : s = storage := by
                rw [← hstorage₀, hstorage, beq_iff_eq] at hgroup
                exact Option.some.inj hgroup
              have hin := List.contains_iff_mem.mpr
                (mem_archiveNames.mpr ⟨h.named i e g he hname, p, hp, hname₀ ▸ hname⟩)
              rw [hkept hs] at hin
              cases hin
            · exact hremoved _ _

theorem expires_foldl_expireGroup {expired : List VolumeRow} (ids : List (Option Nat)) :
    ∀ w : VolumeStore × Bool, Listed w.1 expired →
      Expires expired w.1 (ids.foldl (expireGroup c expired) w).1 := by
  induction ids with
  | nil => exact fun w hlisted => .refl hlisted
  | cons storage ids ih =>
      intro w hlisted
      have hstep := expires_expireGroup (c := c) hlisted w.2 storage
      exact hstep.trans (ih _ hstep.listed)

theorem Known.foldl_expireGroup {expired : List VolumeRow} (ids : List (Option Nat)) :
    ∀ w : VolumeStore × Bool, Known pending w.1 → Listed w.1 expired →
      Known pending (ids.foldl (VolumeStore.expireGroup c expired) w).1 := by
  induction ids with
  | nil => exact fun w h _ => h
  | cons storage ids ih =>
      intro w h hlisted
      exact ih _ (h.expireGroup hlisted w.2 storage)
        (expires_expireGroup (c := c) hlisted w.2 storage).listed

theorem listed_outside {eligible : VolumeArchive → Bool} {rows : List VolumeRow} (r : Retention)
    (hlists : v.lists eligible rows = true) :
    Listed v (executionsOutsideRetention r c.now rows) := by
  intro p hp
  obtain ⟨hget, hstatus, -⟩ := (mem_lists hlists).mp (outside_subset r c.now p hp)
  exact ⟨p.2, hget, hstatus, rfl, rfl⟩

theorem expires_expireInS3 (r : Retention) (hlists : v.lists hasCopyInS3 c.inS3 = true) :
    Expires (executionsOutsideRetention r c.now c.inS3) v (v.expireInS3 r c).1 :=
  expires_foldl_expireGroup _ (v, true) (listed_outside r hlists)

/-- The part of a clean-up for S3. -/
theorem Known.expireInS3 (h : Known pending v) (r : Retention)
    (hlists : v.lists hasCopyInS3 c.inS3 = true) : Known pending (v.expireInS3 r c).1 :=
  foldl_expireGroup _ (v, true) h (listed_outside r hlists)

/-- An execution with a copy is not taken for gone, unless it waits to be cleaned up. -/
theorem Known.deleteGone (h : Known pending v) (hwaits : NoneWaits pending v) :
    Known pending v.deleteGone := by
  have hold : ∀ {i e}, v.deleteGone.executions.get? i = some e → v.executions.get? i = some e :=
    fun he => (Table.get?_deleteWhere.mp he).1
  refine ⟨fun f i hf => ?_, fun s f i hf => ?_, fun i e he => h.settled i e (hold he),
    fun i e he => h.unfinished i e (hold he), fun i e f he => h.named i e f (hold he)⟩
  · obtain ⟨e, he, hkept, hname⟩ := h.file f i hf
    refine ⟨e, Table.get?_deleteWhere.mpr ⟨he, ?_⟩, hkept, hname⟩
    rw [isGone, hkept, Bool.false_and]
  · obtain ⟨e, he, hkept, hname, hstorage, hpending⟩ := h.object s f i hf
    refine ⟨e, Table.get?_deleteWhere.mpr ⟨he, ?_⟩, hkept, hname, hstorage, hpending⟩
    rw [← Bool.not_eq_true]
    intro hgone
    have hnone : e.s3Uploaded = none := by
      rw [isGone, hkept, Bool.false_or, Bool.and_eq_true, Option.isNone_iff_eq_none] at hgone
      exact hgone.2
    exact hwaits i e he hgone (hpending hnone) s f hf

/-- What each part of a clean-up keeps, the clean-up keeps. -/
theorem removeExpiredBackups_induct {P : VolumeStore → Prop} {cfg : VolumeSchedule}
    {v' : VolumeStore} (h : v.removeExpiredBackups cfg c = some v') (hv : P v)
    (hlocal : v.lists hasLocalCopy c.locally = true → P (v.expireLocally cfg.locally c).1)
    (hs3 : ∀ w, P w → w.lists hasCopyInS3 c.inS3 = true → P (w.expireInS3 cfg.inS3 c).1)
    (hgone : ∀ w, P w → P w.deleteGone) : P v' := by
  have hrest : ∀ w, P w → ∀ w',
      (if cfg.saveS3 && cfg.s3.isSome && hasRetentionLimits cfg.inS3 then
        if w.lists hasCopyInS3 c.inS3 then
          if (w.expireInS3 cfg.inS3 c).2 then some (w.expireInS3 cfg.inS3 c).1.deleteGone
          else some (w.expireInS3 cfg.inS3 c).1
        else none
      else some w.deleteGone) = some w' → P w' := by
    intro w hw w' hw'
    split at hw'
    · split at hw'
      · next hlists =>
          have hkept := hs3 w hw hlists
          split at hw'
          · obtain rfl := Option.some.inj hw'
            exact hgone _ hkept
          · obtain rfl := Option.some.inj hw'
            exact hkept
      · cases hw'
    · obtain rfl := Option.some.inj hw'
      exact hgone _ hw
  rw [removeExpiredBackups] at h
  simp only [Option.pure_def, Option.bind_eq_bind, Option.bind_some, Option.bind_none,
    Bool.not_true, Bool.false_eq_true, if_false, if_true] at h
  split at h
  · split at h
    · next hlists =>
        have hkept := hlocal hlists
        split at h
        · obtain rfl := Option.some.inj h
          exact hkept
        · exact hrest _ hkept _ h
    · cases h
  · exact hrest v hv _ h

end VolumeStore

namespace VolumeJob

variable {job : VolumeJob}

theorem takes_of_isDone {removal : Deletion} (h : removal.isDone = true) :
    removal.takes = true := by
  cases removal with
  | done => rfl
  | throws taken => cases h

theorem any_takes_of_isDone {removal : Option Deletion} (h : removal.any Deletion.isDone = true) :
    removal.any Deletion.takes = true := by
  cases removal with
  | none => cases h
  | some removal => exact takes_of_isDone h

theorem row_of_file (htakes : job.takesFile = false) :
    job.row.localStorageDeleted = false ∧ job.row.filename = some job.location := by
  have hkept : job.row.localStorageDeleted = false := by
    rw [← Bool.not_eq_true]
    intro hdeleted
    rw [takesFile, any_takes_of_isDone hdeleted] at htakes
    cases htakes
  refine ⟨hkept, ?_⟩
  rw [row] at hkept ⊢
  dsimp only at hkept ⊢
  rw [removal] at hkept
  split
  · next houtcome =>
      rw [houtcome] at hkept
      dsimp only at hkept
      rw [Option.any_some] at hkept
      rw [hkept]
      rfl
  · rfl

theorem takesObject_of_isCleaned (h : job.isCleaned = true) : job.takesObject = true := by
  rw [isCleaned] at h
  rw [takesObject]
  split at h
  · rw [Bool.and_eq_true] at h
    exact takes_of_isDone h.2
  · rw [Bool.and_eq_true, Bool.and_eq_true] at h
    rw [h.1.1, takes_of_isDone h.2]
    rfl
  · cases h

theorem row_of_object {s : Nat} (hstorage : job.storage = some s)
    (hwrites : job.writesObject = true) (htakes : job.takesObject = false) :
    job.row.s3StorageDeleted = false ∧
      job.row.filename = some job.location ∧
        (job.row.s3Uploaded = none → job.isPending = true) := by
  have hsave : job.cfg.saveS3 = true := by
    rw [storage] at hstorage
    split at hstorage
    · next h => exact h
    · cases hstorage
  have hsome : job.storage.isSome = true := by rw [hstorage]; rfl
  have hcleaned : job.isCleaned = false := by
    rw [← Bool.not_eq_true]
    intro hcleaned
    rw [takesObject_of_isCleaned hcleaned] at htakes
    cases htakes
  rw [writesObject] at hwrites
  cases houtcome : job.outcome with
  | archived size upload removal =>
      refine ⟨hcleaned, ?_, fun hnone => ?_⟩
      · rw [row]
        simp only [houtcome]
      · rw [row] at hnone
        simp only [houtcome, hsave, if_true] at hnone
        cases hnone
  | threw uploading file object cleanup removal =>
      rw [houtcome] at hwrites
      have hpending : job.isPending = true := by
        rw [isPending, houtcome]
        dsimp only
        rw [Bool.and_eq_true] at hwrites
        rw [hsave, hwrites.1, hcleaned]
        rfl
      refine ⟨hcleaned, ?_, fun _ => hpending⟩
      rw [row]
      simp only [houtcome, hpending, Bool.not_true, Bool.and_false, Bool.false_eq_true, if_false]
  | died uploading file object =>
      rw [houtcome] at hwrites
      refine ⟨hcleaned, ?_, fun _ => ?_⟩
      · rw [row]
        simp only [houtcome]
      · rw [Bool.and_eq_true] at hwrites
        rw [isPending, houtcome]
        dsimp only
        rw [hsave, hwrites.1]
        rfl

theorem not_pending_of_success (hstatus : job.row.status = .success)
    (hnone : job.row.s3Uploaded = none) : job.isPending = false := by
  rw [row] at hstatus hnone
  cases houtcome : job.outcome with
  | archived size upload removal =>
      simp only [houtcome] at hnone
      split at hnone
      · cases hnone
      · next hsave =>
          rw [isPending, houtcome]
          dsimp only
          rw [Bool.eq_false_iff.mpr hsave]
          rfl
  | threw uploading file object cleanup removal =>
      simp only [houtcome] at hstatus
      cases hstatus
  | died uploading file object =>
      simp only [houtcome] at hstatus
      cases hstatus

theorem not_uploaded_of_unfinished (hstatus : job.row.status ≠ .success) :
    job.row.s3Uploaded = none := by
  rw [row] at hstatus ⊢
  cases houtcome : job.outcome with
  | archived size upload removal =>
      simp only [houtcome] at hstatus
      exact absurd rfl hstatus
  | threw uploading file object cleanup removal => rfl
  | died uploading file object => rfl

theorem truthy_location : Value.truthy (.string job.location) = true := by
  have hslash : '/' ∈ job.location.toList := by
    rw [location, VolumeTarget.backupLocation]
    simp [String.toList_append]
  rw [Value.truthy, Bool.and_eq_true, bne_iff_ne, bne_iff_ne]
  constructor
  all_goals
    intro h
    rw [h] at hslash
    exact absurd hslash (by decide)

theorem filename_row {f : String} (h : job.row.filename = some f) : f = job.location := by
  rw [row] at h
  dsimp only at h
  split at h
  · split at h
    · cases h
    · exact (Option.some.inj h).symm
  · exact (Option.some.inj h).symm

end VolumeJob

namespace VolumeCopies

open VolumeStore

variable {v v' : VolumeCopies} {job : VolumeJob}

/-- Every copy belongs to an execution. -/
def NoneOrphaned (v : VolumeCopies) : Prop :=
  (∀ f i, v.files f = some i → (v.executions.get? i).isSome = true) ∧
    ∀ s f i, v.objects s f = some i → (v.executions.get? i).isSome = true

/-- A job that archives finds no execution that is noted as gone and whose object in S3
is still to be cleaned up. -/
def Careful (v : VolumeCopies) : VolumeEvent → Prop
  | .run job => job.row.status = .success → ∀ p ∈ v.executions.rows, isGone p.2 = true →
      v.pending p.1 = true → ∀ s ∈ p.2.s3StorageId, ∀ f ∈ p.2.filename, v.objects s f ≠ some p.1
  | .failed .. => True
  | .recover .. => True

instance : DecidableRel Careful := fun v event =>
  match event with
  | .run job => inferInstanceAs (Decidable (job.row.status = .success →
      ∀ p ∈ v.executions.rows, _ → _ → ∀ s ∈ p.2.s3StorageId, ∀ f ∈ p.2.filename, _))
  | .failed .. => isTrue trivial
  | .recover .. => isTrue trivial

theorem noneOrphaned (h : Known v.pending v.toVolumeStore) : v.NoneOrphaned := by
  constructor
  · intro f i hf
    obtain ⟨e, he, -⟩ := h.file f i hf
    rw [he]
    rfl
  · intro s f i hf
    obtain ⟨e, he, -⟩ := h.object s f i hf
    rw [he]
    rfl

theorem pending_perform {i : Nat} (hi : i ≠ v.executions.nextId) :
    (v.perform job).pending i = v.pending i :=
  Function.update_of_ne hi ..

theorem pending_perform_self :
    (v.perform job).pending v.executions.nextId = job.isPending :=
  Function.update_self ..

theorem get?_perform (i : Nat) : (v.perform job).executions.get? i =
    if i = v.executions.nextId then some job.row else v.executions.get? i :=
  Table.get?_insert ..

theorem files_perform {f : String} {i : Nat} (h : (v.perform job).files f = some i) :
    v.files f = some i ∨ i = v.executions.nextId ∧ f = job.location ∧ job.takesFile = false := by
  rw [perform] at h
  dsimp only at h
  split at h
  · next hf =>
      split at h
      · cases h
      · next htakes =>
          split at h
          · exact .inr ⟨(Option.some.inj h).symm, hf, Bool.eq_false_iff.mpr htakes⟩
          · exact .inl h
  · exact .inl h

theorem objects_perform {s : Nat} {f : String} {i : Nat}
    (h : (v.perform job).objects s f = some i) : v.objects s f = some i ∨
      i = v.executions.nextId ∧ f = job.location ∧ job.storage = some s ∧
        job.writesObject = true ∧ job.takesObject = false := by
  rw [perform] at h
  dsimp only at h
  split at h
  · next hkey =>
      split at h
      · cases h
      · next htakes =>
          split at h
          · next hwrites =>
              exact .inr ⟨(Option.some.inj h).symm, hkey.2, hkey.1, hwrites,
                Bool.eq_false_iff.mpr htakes⟩
          · exact .inl h
  · exact .inl h

theorem known_perform (h : Known v.pending v.toVolumeStore) :
    Known (v.perform job).pending (v.perform job).toVolumeStore := by
  have hold : ∀ {i e}, v.executions.get? i = some e →
      (v.perform job).executions.get? i = some e ∧ (v.perform job).pending i = v.pending i :=
    fun he => ⟨Table.get?_insert_of_some _ he, pending_perform (Table.get?_lt he).ne⟩
  refine ⟨fun f i hf => ?_, fun s f i hf => ?_, fun i e he hstatus hnone => ?_,
    fun i e he hstatus => ?_, fun i e f he hf => ?_⟩
  · rcases files_perform hf with hf | ⟨rfl, rfl, htakes⟩
    · obtain ⟨e, he, hrest⟩ := h.file f i hf
      exact ⟨e, (hold he).1, hrest⟩
    · exact ⟨job.row, Table.get?_insert_self .., VolumeJob.row_of_file htakes⟩
  · rcases objects_perform hf with hf | ⟨rfl, rfl, hstorage, hwrites, htakes⟩
    · obtain ⟨e, he, hkept, hname, hs, hwaits⟩ := h.object s f i hf
      exact ⟨e, (hold he).1, hkept, hname, hs, fun hnone => (hold he).2 ▸ hwaits hnone⟩
    · obtain ⟨hkept, hname, hwaits⟩ := VolumeJob.row_of_object hstorage hwrites htakes
      exact ⟨job.row, Table.get?_insert_self .., hkept, hname, hstorage,
        fun hnone => pending_perform_self.trans (hwaits hnone)⟩
  · rw [get?_perform] at he
    split at he
    · next hi =>
        obtain rfl := Option.some.inj he
        rw [hi, pending_perform_self]
        exact VolumeJob.not_pending_of_success hstatus hnone
    · next hi =>
        rw [pending_perform hi]
        exact h.settled i e he hstatus hnone
  · rw [get?_perform] at he
    split at he
    · obtain rfl := Option.some.inj he
      exact VolumeJob.not_uploaded_of_unfinished hstatus
    · exact h.unfinished i e he hstatus
  · rw [get?_perform] at he
    split at he
    · obtain rfl := Option.some.inj he
      rw [VolumeJob.filename_row hf]
      exact VolumeJob.truthy_location
    · exact h.named i e f he hf

/-- A job that has archived leaves nothing that waits. -/
theorem noneWaits_perform (h : NoneWaits v.pending v.toVolumeStore)
    (hknown : Known v.pending v.toVolumeStore) (hstatus : job.row.status = .success) :
    NoneWaits (v.perform job).pending (v.perform job).toVolumeStore := by
  have hknown' : Known (v.perform job).pending (v.perform job).toVolumeStore :=
    known_perform hknown
  intro i e he hgone hpending s f hobject
  obtain ⟨e', he', hkept, -, -, -⟩ := hknown'.object s f i hobject
  obtain rfl := Option.some.inj (he.symm.trans he')
  have hnone : e.s3Uploaded = none := by
    rw [isGone, hkept, Bool.false_or, Bool.and_eq_true, Option.isNone_iff_eq_none] at hgone
    exact hgone.2
  rw [get?_perform] at he
  split at he
  · next hi =>
      obtain rfl := Option.some.inj he
      rw [hi, pending_perform_self, VolumeJob.not_pending_of_success hstatus hnone] at hpending
      cases hpending
  · next hi =>
      rw [pending_perform hi] at hpending
      rcases objects_perform hobject with hobject | ⟨hid, -⟩
      · exact h i e he hgone hpending s f hobject
      · exact hi hid

theorem objects_takeObject {storage s : Nat} {filename f : String} {i : Nat}
    (h : (v.setObject storage filename none).objects s f = some i) :
    ¬ (s = storage ∧ f = filename) ∧ v.objects s f = some i := by
  rw [setObject] at h
  dsimp only at h
  split at h
  · cases h
  · next hkey => exact ⟨hkey, h⟩

theorem known_takeObject (h : Known v.pending v.toVolumeStore) (storage : Nat)
    (filename : String) :
    Known v.pending (v.setObject storage filename none).toVolumeStore :=
  h.of_le rfl (fun _ _ hf => hf) fun _ _ _ hf => (objects_takeObject hf).2

/-- What a recovery of an upload does to the state: it throws, and an object may be gone
all the same; or the object is gone, and that is noted. -/
theorem cleanupS3Upload_cases (v : VolumeCopies) (id : Nat) (e : VolumeArchive)
    (cleanup : Deletion) :
    v.cleanupS3Upload id e cleanup = v ∨
      ∃ storage filename, e.s3StorageId = some storage ∧ e.filename = some filename ∧
        (v.cleanupS3Upload id e cleanup = v.setObject storage filename none ∨
          v.cleanupS3Upload id e cleanup =
            { v.setObject storage filename none with
              executions := v.executions.modify id ({ · with s3StorageDeleted := true })
              pending := Function.update v.pending id false }) := by
  unfold cleanupS3Upload
  split
  · next storage filename hstorage hname =>
      cases cleanup with
      | done => exact .inr ⟨storage, filename, hstorage, hname, .inr rfl⟩
      | throws taken =>
          cases taken with
          | false => exact .inl rfl
          | true => exact .inr ⟨storage, filename, hstorage, hname, .inl rfl⟩
  · exact .inl rfl

theorem known_cleanupS3Upload (h : Known v.pending v.toVolumeStore) {id : Nat}
    {e : VolumeArchive} (he : v.executions.get? id = some e) (cleanup : Deletion) :
    Known (v.cleanupS3Upload id e cleanup).pending
      (v.cleanupS3Upload id e cleanup).toVolumeStore := by
  rcases cleanupS3Upload_cases v id e cleanup with
    hsame | ⟨storage, filename, hstorage, hname, htaken | hdone⟩
  · rwa [hsame]
  · rw [htaken]
    exact known_takeObject h storage filename
  · rw [hdone]
    have hrow : ∀ {i e'}, (v.executions.modify id ({ · with s3StorageDeleted := true })).get? i =
        some e' → ∃ e₀, v.executions.get? i = some e₀ ∧ e'.status = e₀.status ∧
          e'.filename = e₀.filename ∧ e'.s3Uploaded = e₀.s3Uploaded := by
      intro i e' he'
      rw [Table.get?_modify_map] at he'
      obtain ⟨e₀, he₀, rfl⟩ := Option.map_eq_some_iff.mp he'
      refine ⟨e₀, he₀, ?_⟩
      split <;> exact ⟨rfl, rfl, rfl⟩
    refine ⟨fun f i hf => ?_, fun s f i hf => ?_, fun i e' he' hstatus hnone => ?_,
      fun i e' he' hstatus => ?_, fun i e' f he' hf => ?_⟩
    · obtain ⟨e₀, he₀, hkept, hname₀⟩ := h.file f i hf
      refine ⟨_, by rw [Table.get?_modify_map, he₀, Option.map_some], ?_⟩
      split <;> exact ⟨hkept, hname₀⟩
    · obtain ⟨hkey, hf⟩ := objects_takeObject hf
      obtain ⟨e₀, he₀, hkept, hname₀, hs, hwaits⟩ := h.object s f i hf
      have hne : i ≠ id := by
        rintro rfl
        obtain rfl := Option.some.inj (he.symm.trans he₀)
        exact hkey ⟨Option.some.inj (hs.symm.trans hstorage),
          Option.some.inj (hname₀.symm.trans hname)⟩
      refine ⟨e₀, by rw [Table.get?_modify_ne _ hne, he₀], hkept, hname₀, hs, fun hnone => ?_⟩
      exact (Function.update_of_ne hne ..).trans (hwaits hnone)
    · obtain ⟨e₀, he₀, hsame, -, hup⟩ := hrow he'
      by_cases hi : i = id
      · rw [hi]
        exact Function.update_self ..
      · exact (Function.update_of_ne hi ..).trans
          (h.settled i e₀ he₀ (hsame ▸ hstatus) (hup ▸ hnone))
    · obtain ⟨e₀, he₀, hsame, -, hup⟩ := hrow he'
      rw [hup]
      exact h.unfinished i e₀ he₀ (hsame ▸ hstatus)
    · obtain ⟨e₀, he₀, -, hname₀, -⟩ := hrow he'
      exact h.named i e₀ f he₀ (hname₀ ▸ hf)

theorem get?_latestRunning {id : Nat} {e : VolumeArchive} (h : v.latestRunning = some (id, e)) :
    v.executions.get? id = some e ∧ e.status = .running := by
  have hmem := List.argmax_mem (Option.mem_def.mpr h)
  obtain ⟨hget, hstatus⟩ := Table.mem_select.mp hmem
  exact ⟨hget, beq_iff_eq.mp hstatus⟩

/-- A job that is given up. Its copies keep the name, as long as there are any. -/
theorem known_giveUp (h : Known v.pending v.toVolumeStore) {id : Nat} {e : VolumeArchive}
    (he : v.executions.get? id = some e) (hstatus : e.status = .running)
    {g : VolumeArchive → VolumeArchive}
    (hrow : (g e).status = .failed ∧ (g e).s3Uploaded = e.s3Uploaded ∧
      (g e).s3StorageId = e.s3StorageId ∧ (g e).s3StorageDeleted = e.s3StorageDeleted)
    (hname : ∀ f, (g e).filename = some f → e.filename = some f)
    (hfile : ∀ f, v.files f = some id →
      (g e).localStorageDeleted = e.localStorageDeleted ∧ (g e).filename = e.filename)
    (hobject : v.pending id = true → (g e).filename = e.filename) :
    Known v.pending { v.toVolumeStore with executions := v.executions.modify id g } := by
  have hup : e.s3Uploaded = none := by
    refine h.unfinished id e he fun hsuccess => ?_
    rw [hsuccess] at hstatus
    cases hstatus
  have hself : (v.executions.modify id g).get? id = some (g e) := Table.get?_modify_self g he
  have hother : ∀ {i e'}, (v.executions.modify id g).get? i = some e' →
      i = id ∧ e' = g e ∨ v.executions.get? i = some e' := by
    intro i e' he'
    by_cases hi : i = id
    · rw [hi, hself] at he'
      exact .inl ⟨hi, (Option.some.inj he').symm⟩
    · rw [Table.get?_modify_ne g hi] at he'
      exact .inr he'
  refine ⟨fun f i hf => ?_, fun s f i hf => ?_, fun i e' he' hsuccess hnone => ?_,
    fun i e' he' hunfinished => ?_, fun i e' f he' hf => ?_⟩
  · obtain ⟨e₀, he₀, hkept, hname₀⟩ := h.file f i hf
    by_cases hi : i = id
    · subst hi
      obtain rfl := Option.some.inj (he.symm.trans he₀)
      obtain ⟨hlocal, hfilename⟩ := hfile f hf
      exact ⟨g e, hself, hlocal.trans hkept, hfilename.trans hname₀⟩
    · exact ⟨e₀, (Table.get?_modify_ne g hi).trans he₀, hkept, hname₀⟩
  · obtain ⟨e₀, he₀, hkept, hname₀, hstorage, hwaits⟩ := h.object s f i hf
    by_cases hi : i = id
    · subst hi
      obtain rfl := Option.some.inj (he.symm.trans he₀)
      obtain ⟨-, -, hsame, hs3⟩ := hrow
      exact ⟨g e, hself, hs3.trans hkept, (hobject (hwaits hup)).trans hname₀,
        hsame.trans hstorage, fun _ => hwaits hup⟩
    · exact ⟨e₀, (Table.get?_modify_ne g hi).trans he₀, hkept, hname₀, hstorage, hwaits⟩
  · rcases hother he' with ⟨-, rfl⟩ | hold
    · rw [hrow.1] at hsuccess
      cases hsuccess
    · exact h.settled i e' hold hsuccess hnone
  · rcases hother he' with ⟨-, rfl⟩ | hold
    · exact hrow.2.1.trans hup
    · exact h.unfinished i e' hold hunfinished
  · rcases hother he' with ⟨rfl, rfl⟩ | hold
    · exact h.named i e f he (hname f hf)
    · exact h.named i e' f hold hf

theorem get?_cleanupS3Upload {id : Nat} {e : VolumeArchive} (he : v.executions.get? id = some e)
    (cleanup : Deletion) : ∃ e', (v.cleanupS3Upload id e cleanup).executions.get? id = some e' ∧
      e'.status = e.status ∧ e'.filename = e.filename := by
  rcases cleanupS3Upload_cases v id e cleanup with
    hsame | ⟨storage, filename, -, -, htaken | hdone⟩
  · exact ⟨e, by rw [hsame, he], rfl, rfl⟩
  · exact ⟨e, by rw [htaken]; exact he, rfl, rfl⟩
  · exact ⟨{ e with s3StorageDeleted := true }, by rw [hdone]; exact Table.get?_modify_self _ he,
      rfl, rfl⟩

theorem files_takeFile {filename f : String} {i : Nat}
    (h : (v.setFile filename none).files f = some i) : f ≠ filename ∧ v.files f = some i := by
  rw [setFile] at h
  dsimp only at h
  by_cases hf : f = filename
  · rw [hf, Function.update_self] at h
    cases h
  · exact ⟨hf, (Function.update_of_ne hf ..).symm.trans h⟩

theorem known_failed (h : Known v.pending v.toVolumeStore) (cleanup removal : Deletion) :
    Known (v.failed cleanup removal).pending (v.failed cleanup removal).toVolumeStore := by
  unfold failed
  split
  · exact h
  · next id e hlatest =>
      obtain ⟨he, hrunning⟩ := get?_latestRunning hlatest
      obtain ⟨v₁, hv₁, hknown, e₁, he₁, hstatus, hname⟩ : ∃ v₁ : VolumeCopies,
          (if v.pending id then v.cleanupS3Upload id e cleanup else v) = v₁ ∧
            Known v₁.pending v₁.toVolumeStore ∧ ∃ e₁, v₁.executions.get? id = some e₁ ∧
              e₁.status = e.status ∧ e₁.filename = e.filename := by
        split
        · exact ⟨_, rfl, known_cleanupS3Upload h he cleanup, get?_cleanupS3Upload he cleanup⟩
        · exact ⟨v, rfl, h, e, he, rfl, rfl⟩
      rw [hrunning] at hstatus
      rw [← hname]
      dsimp only
      rw [hv₁]
      cases hfilename : e₁.filename with
      | none =>
          exact known_giveUp hknown he₁ hstatus ⟨rfl, rfl, rfl, rfl⟩ (fun _ hf => hf)
            (fun _ _ => ⟨rfl, rfl⟩) fun _ => rfl
      | some filename =>
          have htaken : Known v₁.pending (v₁.setFile filename none).toVolumeStore :=
            hknown.of_le rfl (fun _ _ hf => (files_takeFile hf).2) fun _ _ _ hf => hf
          -- the file had the name of the row
          have hnone : ∀ f, (v₁.setFile filename none).files f ≠ some id := fun f hf => by
            obtain ⟨hne, hf⟩ := files_takeFile hf
            obtain ⟨e₀, he₀, -, hname₀⟩ := hknown.file f id hf
            obtain rfl := Option.some.inj (he₁.symm.trans he₀)
            exact hne (Option.some.inj (hname₀.symm.trans hfilename))
          cases removal with
          | done =>
              refine known_giveUp (v := v₁.setFile filename none) htaken he₁ hstatus
                ⟨rfl, rfl, rfl, rfl⟩ (fun f hf => ?_) (fun f hf => absurd hf (hnone f))
                fun hpending => ?_
              · have hf : (if (Deletion.done.isDone && !v₁.pending id) = true then none
                    else some filename) = some f := hf
                split at hf
                · cases hf
                · exact hfilename.trans hf
              · have hwaits : v₁.pending id = true := hpending
                dsimp only
                rw [hfilename]
                simp [Deletion.takes, Deletion.isDone, setFile, hwaits]
          | throws taken =>
              have hrow : ∀ row : VolumeArchive,
                  (row.localStorageDeleted || (Deletion.throws taken).isDone) =
                    row.localStorageDeleted := fun row => Bool.or_false _
              cases taken with
              | true =>
                  exact known_giveUp (v := v₁.setFile filename none) htaken he₁ hstatus
                    ⟨rfl, rfl, rfl, rfl⟩ (fun f hf => hfilename.trans hf)
                    (fun f hf => absurd hf (hnone f))
                    fun _ => hfilename.symm
              | false =>
                  exact known_giveUp (v := v₁) hknown he₁ hstatus ⟨rfl, rfl, rfl, rfl⟩
                    (fun f hf => hfilename.trans hf) (fun _ _ => ⟨hrow e₁, hfilename.symm⟩)
                    fun _ => hfilename.symm

theorem known_recover (h : Known v.pending v.toVolumeStore) {id : Nat} {cleanup : Deletion}
    (hstep : v.recover id cleanup = some v') : Known v'.pending v'.toVolumeStore := by
  rw [recover, Option.map_eq_some_iff] at hstep
  obtain ⟨e, he, rfl⟩ := hstep
  split
  · exact known_cleanupS3Upload h he cleanup
  · exact h

theorem noneWaits_of_careful (h : Known v.pending v.toVolumeStore) (hcareful : v.Careful (.run job))
    (hstatus : job.row.status = .success) : NoneWaits v.pending v.toVolumeStore := by
  intro i e he hgone hpending s f hobject
  obtain ⟨e', he', -, hname, hstorage, -⟩ := h.object s f i hobject
  obtain rfl := Option.some.inj (he.symm.trans he')
  exact hcareful hstatus (i, e) (Table.mem_rows.mpr he) hgone hpending s hstorage f hname hobject

theorem known_handle (h : Known v.pending v.toVolumeStore) (hcareful : v.Careful (.run job))
    (hstep : v.handle job = some v') : Known v'.pending v'.toVolumeStore := by
  rw [handle] at hstep
  split at hstep
  · next size upload removal houtcome =>
      split at hstep
      · cases hstep
      · obtain ⟨w, hw, rfl⟩ := Option.map_eq_some_iff.mp hstep
        have hstatus : job.row.status = .success := by
          rw [VolumeJob.row]
          simp only [houtcome]
        have hwaits := noneWaits_perform (noneWaits_of_careful h hcareful hstatus) h hstatus
        refine (removeExpiredBackups_induct (P := fun w => Known (v.perform job).pending w ∧
          NoneWaits (v.perform job).pending w) hw ⟨known_perform h, hwaits⟩ (fun hlists => ?_)
          (fun w hw hlists => ?_) fun w hw => ?_).1
        · have hperformed : Known (v.perform job).pending (v.perform job).toVolumeStore :=
            known_perform h
          have hknown := hperformed.expireLocally job.cfg.locally hlists
          refine ⟨hknown, hwaits.of_rows (known_perform h) hknown (fun i e' he' => ?_)
            fun s f i hf => ?_⟩
          · obtain ⟨e, he, hsame | ⟨hsuccess, rfl⟩⟩ := rows_expireLocally _ hlists he'
            · exact ⟨e, he, .inl hsame⟩
            · exact ⟨e, he, .inr ⟨hsuccess, rfl⟩⟩
          · rwa [objects_expireLocally] at hf
        · obtain ⟨hknown, hwaits⟩ := hw
          have hknown' := hknown.expireInS3 job.cfg.inS3 hlists
          have hexpires := expires_expireInS3 job.cfg.inS3 hlists
          refine ⟨hknown', hwaits.of_rows hknown hknown' (fun i e' he' => ?_) hexpires.object⟩
          obtain ⟨e, he, hsame | ⟨hsuccess, -, rfl⟩⟩ := hexpires.row i e' he'
          · exact ⟨e, he, .inl hsame⟩
          · exact ⟨e, he, .inr ⟨hsuccess, rfl⟩⟩
        · refine ⟨hw.1.deleteGone hw.2, fun i e he hgone => ?_⟩
          rw [(Table.get?_deleteWhere.mp he).2] at hgone
          cases hgone
  · cases hstep
    exact known_perform h

theorem known_step {event : VolumeEvent} (h : Known v.pending v.toVolumeStore)
    (hcareful : v.Careful event) (hstep : v.step event = some v') :
    Known v'.pending v'.toVolumeStore := by
  cases event with
  | run job => exact known_handle h hcareful hstep
  | failed cleanup removal =>
      cases hstep
      exact known_failed h cleanup removal
  | recover id cleanup => exact known_recover h hstep

theorem emptyVolume_known : Known emptyVolume.pending emptyVolume.toVolumeStore where
  file _ _ hf := by cases hf
  object _ _ _ hf := by cases hf
  settled _ _ he := by cases he
  unfinished _ _ he := by cases he
  named _ _ _ he := by cases he

/-- A volume with one archive kept on the server, and one in S3. -/
def volumeSchedule (saveS3 : Bool) : VolumeSchedule where
  saveS3 := saveS3
  s3 := some 1
  disableLocalBackup := false
  locally := ⟨1, 0, 0⟩
  inS3 := ⟨1, 0, 0⟩

def volumeJob (cfg : VolumeSchedule) (time : Nat) (outcome : VolumeOutcome)
    (rows : List VolumeRow) : VolumeJob where
  cfg := cfg
  target := ⟨"/data/coolify/backups/volumes/root-1/shop", "volume-data"⟩
  createdAt := time
  time := time
  outcome := outcome
  cleanUp := ⟨time, rows, rows, true, fun _ => true, fun _ => true, fun _ => true⟩

/-- A job that comes to its end, as the execution `id` behind those in `rows`. -/
def archiving (cfg : VolumeSchedule) (time id : Nat) (rows : List VolumeRow) : VolumeJob :=
  let outcome : VolumeOutcome := .archived 4096 .stored .done
  volumeJob cfg time outcome ((id, (volumeJob cfg time outcome []).row) :: rows)

/-- A job is given up in its upload, and its object cannot be deleted; the next archive
drops the execution that knows of it. -/
theorem object_left_behind : ∃ trail v, Runs step emptyVolume trail v ∧
    ¬ Throughout NoneOrphaned trail v := by
  let lost := volumeJob (volumeSchedule true) 1790800000
    (.threw true true true (.throws false) .done) []
  obtain ⟨trail, v, hrun, -, hlost⟩ := exists_runs_of_execIf step Any
    [.run lost, .run (archiving (volumeSchedule true) 1790886400 2 [])] emptyVolume
    (fun v => v.objects 1 lost.location == some 1 && (v.executions.get? 1).isNone)
    (by decide +kernel)
  rw [Bool.and_eq_true, beq_iff_eq, Option.isNone_iff_eq_none] at hlost
  refine ⟨trail, v, hrun, fun h => ?_⟩
  have howned := h.2.2 1 lost.location 1 hlost.1
  rw [hlost.2] at howned
  cases howned

end VolumeCopies

end OnePloy
