import OnePloy.DatabaseRetention
import OnePloy.VolumeBackups
import OnePloy.Lib.Budget

/-!
# Retention of volume backups

`removeExpiredBackups` looks at the successful executions of a schedule that have a
copy on the server, and then at those that were uploaded to S3 and have a copy
there, each time with limits of its own. An archive that cannot be deleted ends it,
and nothing is noted for it; the copies in S3 are deleted storage by storage. At the
end the executions without a copy are deleted.

A file is known by the execution that has written it, on the server as in the
storages of S3.
-/

namespace OnePloy

open Conc Php

/-- A row of `scheduled_volume_backup_executions`, with what retention reads. -/
structure VolumeArchive where
  createdAt : Nat
  status : ExecutionStatus
  size : Nat
  filename : Option String
  s3StorageId : Option Nat
  localStorageDeleted : Bool
  s3StorageDeleted : Bool
  s3Uploaded : Option Bool
  deriving DecidableEq, Repr

abbrev VolumeRow := Nat × VolumeArchive

/-- What a schedule says about copies. -/
structure VolumeSchedule where
  saveS3 : Bool
  /-- The S3 storage of the schedule, if it exists. -/
  s3 : Option Nat
  disableLocalBackup : Bool
  locally : Retention
  inS3 : Retention

structure VolumeStore where
  executions : Table VolumeArchive
  /-- The execution whose archive is the file on the server. -/
  files : String → Option Nat
  /-- The same in a storage of S3. -/
  objects : Nat → String → Option Nat

/-! ## What the limits select -/

def hasRetentionLimits (r : Retention) : Bool :=
  decide (0 < r.amount) || decide (0 < r.days) || decide (0 < r.maxStorageGB)

/-- `$executions->slice($index)`, from where the sizes exceed the limit; never the
first. -/
def sliceOver (maxStorageBytes : ℚ) : Nat → Nat → List VolumeRow → List VolumeRow
  | _, _, [] => []
  | index, totalSize, p :: rest =>
      if 0 < index ∧ maxStorageBytes < ((totalSize + p.2.size : Nat) : ℚ) then p :: rest
      else sliceOver maxStorageBytes (index + 1) (totalSize + p.2.size) rest

def executionsOutsideRetention (r : Retention) (now : Nat) (executions : List VolumeRow) :
    List VolumeRow :=
  if r.amount = 0 ∧ r.days = 0 ∧ r.maxStorageGB = 0 then []
  else
    let byAmount := if 0 < r.amount then executions.drop r.amount.toNat else []
    let byDays :=
      if 0 < r.days then
        executions.filter fun p => p.2.createdAt + r.days.toNat * 86400 < now
      else []
    let byStorage :=
      if 0 < r.maxStorageGB then sliceOver r.maxStorageBytes 0 0 executions else []
    (byAmount ++ byDays ++ byStorage).eraseDups

/-- `pluck('filename')->filter()`. -/
def archiveNames (executions : List VolumeRow) : List String :=
  executions.filterMap fun p => p.2.filename.filter fun f => Value.truthy (.string f)

/-! ## Removing expired backups -/

/-- What a cleanup finds outside: the time, the order in which the database returns
the executions, and how the server and the storages of S3 take a deletion. A deletion
that fails may have taken some files. -/
structure VolumeCleanUp where
  now : Nat
  locally : List VolumeRow
  inS3 : List VolumeRow
  removes : Bool
  hasStorage : Nat → Bool
  s3Deletes : Nat → Bool
  taken : String → Bool

namespace VolumeStore

/-- The successful executions in question, the latest first. -/
def lists (v : VolumeStore) (eligible : VolumeArchive → Bool) (rows : List VolumeRow) : Bool :=
  rows.isPerm (v.executions.select fun _ e => e.status == .success && eligible e) &&
    decide (rows.Pairwise fun p q => q.2.createdAt ≤ p.2.createdAt)

def removeFiles (v : VolumeStore) (gone : String → Bool) : VolumeStore :=
  { v with files := fun f => if gone f then none else v.files f }

def removeObjects (v : VolumeStore) (storage : Nat) (gone : String → Bool) : VolumeStore :=
  { v with objects := fun s f => if s = storage ∧ gone f = true then none else v.objects s f }

def note (v : VolumeStore) (rows : List VolumeRow) (f : VolumeArchive → VolumeArchive) :
    VolumeStore :=
  { v with executions := v.executions.updateWhere (fun i _ => rows.any (·.1 == i)) f }

/-- The local part, and whether it comes to its end. -/
def expireLocally (v : VolumeStore) (r : Retention) (c : VolumeCleanUp) : VolumeStore × Bool :=
  let expired := executionsOutsideRetention r c.now c.locally
  let filenames := archiveNames expired
  if filenames.isEmpty then (v, true)
  else if c.removes then
    ((v.removeFiles filenames.contains).note expired ({ · with localStorageDeleted := true }), true)
  else (v.removeFiles fun f => filenames.contains f && c.taken f, false)

/-- The executions of one storage. -/
def expireGroup (c : VolumeCleanUp) (expired : List VolumeRow) (v : VolumeStore × Bool)
    (storage : Option Nat) : VolumeStore × Bool :=
  if !v.2 then v
  else
    match storage with
    | none => (v.1, false)
    | some s =>
        let group := expired.filter (·.2.s3StorageId == some s)
        let filenames := archiveNames group
        if !c.hasStorage s then (v.1, false)
        else if filenames.isEmpty then v
        else if c.s3Deletes s then
          ((v.1.removeObjects s filenames.contains).note group
            ({ · with s3StorageDeleted := true }), true)
        else (v.1.removeObjects s fun f => filenames.contains f && c.taken f, false)

/-- The part for S3. -/
def expireInS3 (v : VolumeStore) (r : Retention) (c : VolumeCleanUp) : VolumeStore × Bool :=
  let expired := executionsOutsideRetention r c.now c.inS3
  ((expired.map (·.2.s3StorageId)).eraseDups).foldl (expireGroup c expired) (v, true)

/-- No copy is left of these. -/
def isGone (e : VolumeArchive) : Bool :=
  e.localStorageDeleted && (e.s3StorageDeleted || e.s3Uploaded.isNone)

def deleteGone (v : VolumeStore) : VolumeStore :=
  { v with executions := v.executions.deleteWhere fun _ e => isGone e }

def hasLocalCopy (e : VolumeArchive) : Bool := !e.localStorageDeleted

def hasCopyInS3 (e : VolumeArchive) : Bool := e.s3Uploaded == some true && !e.s3StorageDeleted

def removeExpiredBackups (cfg : VolumeSchedule) (v : VolumeStore) (c : VolumeCleanUp) :
    Option VolumeStore := do
  let (v, goesOn) ←
    if hasRetentionLimits cfg.locally then
      if v.lists hasLocalCopy c.locally then pure (v.expireLocally cfg.locally c) else none
    else pure (v, true)
  if !goesOn then return v
  let (v, goesOn) ←
    if cfg.saveS3 && cfg.s3.isSome && hasRetentionLimits cfg.inS3 then
      if v.lists hasCopyInS3 c.inS3 then pure (v.expireInS3 cfg.inS3 c) else none
    else pure (v, true)
  if goesOn then return v.deleteGone else return v

end VolumeStore

/-! ## What a cleanup notes -/

namespace VolumeStore

variable {v : VolumeStore} {rows expired : List VolumeRow} {c : VolumeCleanUp}

theorem lists_nodup {eligible : VolumeArchive → Bool} (h : v.lists eligible rows = true) :
    rows.Nodup := by
  rw [lists, Bool.and_eq_true, List.isPerm_iff] at h
  exact h.1.nodup_iff.mpr (List.Nodup.of_map _ (Table.select_nodup ..))

theorem mem_lists {eligible : VolumeArchive → Bool} (h : v.lists eligible rows = true)
    {p : VolumeRow} : p ∈ rows ↔
      v.executions.get? p.1 = some p.2 ∧ p.2.status = .success ∧ eligible p.2 = true := by
  rw [lists, Bool.and_eq_true, List.isPerm_iff] at h
  rw [h.1.mem_iff, Table.mem_select]
  simp

theorem sliceOver_subset (max : ℚ) (index t : Nat) (l : List VolumeRow) :
    sliceOver max index t l ⊆ l := by
  induction l generalizing index t with
  | nil => exact List.Subset.refl []
  | cons p l ih =>
      rw [sliceOver]
      split
      · exact List.Subset.refl _
      · exact List.subset_cons_of_subset p (ih _ _)

theorem outside_subset (r : Retention) (now : Nat) :
    ∀ p ∈ executionsOutsideRetention r now rows, p ∈ rows := by
  intro p hp
  rw [executionsOutsideRetention] at hp
  split at hp
  · cases hp
  · rw [List.mem_eraseDups, List.mem_append, List.mem_append] at hp
    rcases hp with (hp | hp) | hp
    · split at hp
      · exact List.mem_of_mem_drop hp
      · cases hp
    · split at hp
      · exact (List.mem_filter.mp hp).1
      · cases hp
    · split at hp
      · exact sliceOver_subset _ _ _ _ hp
      · cases hp

theorem mem_archiveNames {f : String} : f ∈ archiveNames rows ↔
    Value.truthy (.string f) = true ∧ ∃ p ∈ rows, p.2.filename = some f := by
  rw [archiveNames, List.mem_filterMap]
  constructor
  · rintro ⟨p, hp, hf⟩
    rw [Option.filter_eq_some_iff] at hf
    exact ⟨hf.2, p, hp, hf.1⟩
  · rintro ⟨htruthy, p, hp, hf⟩
    exact ⟨p, hp, Option.filter_eq_some_iff.mpr ⟨hf, htruthy⟩⟩

/-- The execution has a file to its name. -/
def IsNamed (e : VolumeArchive) : Prop :=
  ∃ f, e.filename = some f ∧ Value.truthy (.string f) = true

theorem eq_nil_of_archiveNames (hnamed : ∀ p ∈ rows, IsNamed p.2)
    (h : (archiveNames rows).isEmpty = true) : rows = [] := by
  by_contra hne
  obtain ⟨p, rest, rfl⟩ := List.exists_cons_of_ne_nil hne
  obtain ⟨f, hf, htruthy⟩ := hnamed p (List.mem_cons_self ..)
  have hmem : f ∈ archiveNames (p :: rest) :=
    mem_archiveNames.mpr ⟨htruthy, p, List.mem_cons_self .., hf⟩
  rw [List.isEmpty_iff.mp h] at hmem
  cases hmem

theorem get?_note (f : VolumeArchive → VolumeArchive) (i : Nat) :
    (v.note rows f).executions.get? i =
      (v.executions.get? i).map fun e => if rows.any (·.1 == i) then f e else e :=
  Table.get?_updateWhere ..

/-- Where the server takes the deletion, all that is expired is noted. -/
theorem expireLocally_of_removes {r : Retention} (hremoves : c.removes = true)
    (hnamed : ∀ p ∈ executionsOutsideRetention r c.now c.locally, IsNamed p.2) :
    (v.expireLocally r c).2 = true ∧ ∀ i, (v.expireLocally r c).1.executions.get? i =
      (v.executions.get? i).map fun e =>
        if (executionsOutsideRetention r c.now c.locally).any (·.1 == i) then
          { e with localStorageDeleted := true } else e := by
  rw [expireLocally]
  split
  · next hempty =>
      refine ⟨rfl, fun i => ?_⟩
      rw [eq_nil_of_archiveNames hnamed hempty]
      simp
  · exact ⟨rfl, get?_note _⟩

theorem any_or {α : Type*} (l : List α) (p q : α → Bool) :
    (l.any fun a => p a || q a) = (l.any p || l.any q) := by
  induction l with
  | nil => rfl
  | cons a l ih =>
      rw [List.any_cons, List.any_cons, List.any_cons, ih]
      ac_rfl

/-- Storage by storage the same is noted for S3. -/
theorem foldl_expireGroup (hstorage : ∀ s, c.hasStorage s = true)
    (hdeletes : ∀ s, c.s3Deletes s = true) (hnamed : ∀ p ∈ expired, IsNamed p.2)
    {ids : List (Option Nat)} (hids : ∀ s ∈ ids, s.isSome = true) (v : VolumeStore) :
    ∃ v', ids.foldl (expireGroup c expired) (v, true) = (v', true) ∧
      ∀ i, v'.executions.get? i = (v.executions.get? i).map fun e =>
        if expired.any (fun q => q.1 == i && ids.contains q.2.s3StorageId) then
          { e with s3StorageDeleted := true } else e := by
  induction ids generalizing v with
  | nil => exact ⟨v, rfl, fun i => by simp⟩
  | cons storage ids ih =>
      obtain ⟨s, rfl⟩ := Option.isSome_iff_exists.mp (hids storage (List.mem_cons_self ..))
      obtain ⟨v₁, hgroup, hget⟩ : ∃ v₁, expireGroup c expired (v, true) (some s) = (v₁, true) ∧
          ∀ i, v₁.executions.get? i = (v.executions.get? i).map fun e =>
            if expired.any (fun q => q.1 == i && q.2.s3StorageId == some s) then
              { e with s3StorageDeleted := true } else e := by
        have hany : ∀ i, (expired.filter (·.2.s3StorageId == some s)).any (·.1 == i) =
            expired.any fun q => q.1 == i && q.2.s3StorageId == some s := fun i => by
          rw [List.any_filter]
          exact List.any_congr rfl fun q => Bool.and_comm ..
        rw [expireGroup]
        simp only [Bool.not_true, Bool.false_eq_true, if_false, hstorage, hdeletes, if_true]
        split
        · next hempty =>
            refine ⟨v, rfl, fun i => ?_⟩
            rw [← hany, eq_nil_of_archiveNames
              (fun p hp => hnamed p (List.mem_of_mem_filter hp)) hempty]
            simp
        · refine ⟨_, rfl, fun i => ?_⟩
          rw [get?_note, hany]
          rfl
      obtain ⟨v', hfold, hrest⟩ := ih (fun t ht => hids t (List.mem_cons_of_mem _ ht)) v₁
      refine ⟨v', by rw [List.foldl_cons, hgroup, hfold], fun i => ?_⟩
      rw [hrest, hget, Option.map_map]
      congr 1
      funext e
      have hsplit : expired.any (fun q => q.1 == i && (some s :: ids).contains q.2.s3StorageId) =
          (expired.any (fun q => q.1 == i && q.2.s3StorageId == some s) ||
            expired.any fun q => q.1 == i && ids.contains q.2.s3StorageId) := by
        rw [← any_or]
        exact List.any_congr rfl fun q => by rw [List.contains_cons, Bool.and_or_distrib_left]
      rw [hsplit, Function.comp]
      cases expired.any (fun q => q.1 == i && q.2.s3StorageId == some s) <;>
        cases expired.any (fun q => q.1 == i && ids.contains q.2.s3StorageId) <;> rfl

end VolumeStore

end OnePloy
