import OnePloy.VolumeRetention
import Mathlib.Tactic.Linarith

/-!
# The storage cap of backups

With no other limit than a cap on storage, retention is to keep as many backups as
fit, the newest first, and at least one. `executionsOutsideRetention` does, for
volumes. The loop for databases begins to count behind the newest backup, and the
`skip(1)` behind it spares the backup at which the sum exceeds the cap: wherever it
has to delete something, it keeps too much.
-/

namespace OnePloy

open Conc Php Budget

/-- A backup as retention sees it. -/
structure Archive where
  execution : Nat
  createdAt : Nat
  size : Nat
  deriving DecidableEq, Repr

def Archive.weight (a : Archive) : ℚ := a.size

def archiveOf (p : BackupRow) : Archive := ⟨p.1, p.2.createdAt, p.2.size⟩

def archiveOfVolume (p : VolumeRow) : Archive := ⟨p.1, p.2.createdAt, p.2.size⟩

/-- No limit but a cap, in GB. -/
def storageOnly (cap : ℚ) : Retention := ⟨0, 0, cap⟩

def capBytes (cap : ℚ) : ℚ := (storageOnly cap).maxStorageBytes

/-! ## The loop for databases -/

section Databases

variable {cap : ℚ} {rows : List BackupRow}

def rowWeight (p : BackupRow) : ℚ := p.2.size

theorem firstOver_eq (maxStorageBytes : ℚ) (t : Nat) (rows : List BackupRow) :
    firstOver maxStorageBytes t rows = (overflow rowWeight maxStorageBytes t rows).head? := by
  induction rows generalizing t with
  | nil => rfl
  | cons p rows ih =>
      have hsum : (((t + p.2.size : Nat) : ℚ)) = t + rowWeight p := by
        rw [rowWeight, Nat.cast_add]
      rw [firstOver, overflow, ih, hsum]
      split <;> rfl

/-- The rows up to the one at which the sizes behind the first exceed the cap. -/
def withinAndOneOver (cap : ℚ) : List BackupRow → List BackupRow
  | [] => []
  | p :: rest =>
      p :: rest.take (rest.length - (overflow rowWeight (capBytes cap) 0 rest).tail.length)

theorem withinAndOneOver_front (cap : ℚ) (rows : List BackupRow) :
    withinAndOneOver cap rows <+: rows := by
  cases rows with
  | nil => exact List.prefix_rfl
  | cons p rest => exact (List.prefix_cons_inj p).mpr (List.take_prefix _ _)

theorem mem_toDelete_storageOnly (hcap : 0 < cap) {p : BackupRow} :
    p ∈ (storageOnly cap).toDelete rows ↔
      ∃ beyond, firstOver (capBytes cap) 0 (rows.drop 1) = some beyond ∧
        p ∈ (rows.filter fun q => q.2.createdAt ≤ beyond.2.createdAt).drop 1 := by
  have hbytes : (storageOnly cap).maxStorageBytes = capBytes cap := rfl
  have hamount : (storageOnly cap).byAmount rows = [] := rfl
  have hdays : (storageOnly cap).byDays rows = [] := rfl
  rw [Retention.toDelete, List.mem_eraseDups, hamount, hdays, List.nil_append, List.nil_append,
    Retention.byStorage, if_pos (show 0 < (storageOnly cap).maxStorageGB from hcap), hbytes]
  cases firstOver (capBytes cap) 0 (rows.drop 1) <;> simp

/-- In a list with the latest first, what is not later than one stands from there on. -/
theorem filter_not_later {front post : List BackupRow} {beyond : BackupRow}
    (htimes : (front ++ beyond :: post).Pairwise fun p q => q.2.createdAt < p.2.createdAt) :
    (front ++ beyond :: post).filter (fun q => q.2.createdAt ≤ beyond.2.createdAt) =
      beyond :: post := by
  obtain ⟨-, hback, hacross⟩ := List.pairwise_append.mp htimes
  have hfront : front.filter (fun q => decide (q.2.createdAt ≤ beyond.2.createdAt)) = [] :=
    List.filter_eq_nil_iff.mpr fun q hq => by
      have := hacross q hq beyond (List.mem_cons_self ..)
      simpa using this
  have hrest : post.filter (fun q => decide (q.2.createdAt ≤ beyond.2.createdAt)) = post :=
    List.filter_eq_self.mpr fun q hq => by
      have := (List.pairwise_cons.mp hback).1 q hq
      simpa using this.le
  rw [List.filter_append, hfront, List.nil_append, List.filter_cons_of_pos (by simp), hrest]

/-- What the cap of a database leaves: the loop deletes only what is behind the
backup at which it stops. -/
theorem kept_storageOnly (hcap : 0 < cap)
    (htimes : rows.Pairwise fun p q => q.2.createdAt < p.2.createdAt) :
    (rows.filter fun p => p ∉ (storageOnly cap).toDelete rows) = withinAndOneOver cap rows := by
  cases rows with
  | nil => rfl
  | cons p rest =>
      rw [withinAndOneOver]
      have hmem := fun q => @mem_toDelete_storageOnly cap (p :: rest) hcap q
      rw [List.drop_one, List.tail_cons, firstOver_eq, Nat.cast_zero] at hmem
      obtain ⟨k, hdrop, -, -⟩ := exists_overflow (w := rowWeight)
        (fun p => Nat.cast_nonneg _) (capBytes cap) 0 rest
      rw [hdrop] at hmem ⊢
      cases hback : rest.drop k with
      | nil =>
          rw [hback] at hmem
          rw [List.tail_nil, List.length_nil, Nat.sub_zero, List.take_length]
          exact List.filter_eq_self.mpr fun q _ => by simp [hmem q]
      | cons beyond post =>
          rw [hback, List.head?_cons] at hmem
          have hsplit : p :: rest = (p :: rest.take k) ++ beyond :: post := by
            rw [← hback, List.cons_append, List.take_append_drop]
          have hlen : rest.length - post.length = k + 1 := by
            have := congrArg List.length hback
            rw [List.length_drop, List.length_cons] at this
            omega
          have hpost : ∀ q, q ∈ (storageOnly cap).toDelete (p :: rest) ↔ q ∈ post := by
            intro q
            rw [hmem q]
            have hfilter := filter_not_later (hsplit ▸ htimes)
            rw [← hsplit] at hfilter
            constructor
            · rintro ⟨b, hb, hq⟩
              rwa [← Option.some.inj hb, hfilter] at hq
            · exact fun hq => ⟨beyond, rfl, by rwa [hfilter]⟩
          have htake : rest.take (k + 1) = rest.take k ++ [beyond] := by
            rw [List.take_add_one, ← List.head?_drop, hback]
            rfl
          have hends : p :: rest = (p :: (rest.take k ++ [beyond])) ++ post := by
            rw [hsplit]
            simp
          have hapart := (List.pairwise_append.mp (hends ▸ htimes)).2.2
          rw [List.tail_cons, hlen, htake]
          refine filter_front hends (fun q hq => ?_) fun q hq => ?_
          · rw [decide_eq_true_iff, hpost]
            exact fun hq' => absurd (hapart q hq q hq') (Nat.lt_irrefl _)
          · rw [decide_eq_false_iff_not, not_not, hpost]
            exact hq

/-- The loop for databases keeps the cap only where nothing has to be deleted. -/
theorem fills_withinAndOneOver_iff :
    Fills rowWeight (capBytes cap) rows (withinAndOneOver cap rows) ↔
      rows.length ≤ 1 ∨ total rowWeight rows ≤ capBytes cap := by
  rw [← fills_self_iff]
  cases rows with
  | nil => rfl
  | cons p rest =>
      have hw : ∀ q, 0 ≤ rowWeight q := fun q => Nat.cast_nonneg _
      obtain ⟨k, hdrop, -, hlargest⟩ := exists_overflow hw (capBytes cap) 0 rest
      rw [withinAndOneOver, hdrop]
      cases hback : rest.drop k with
      | nil => rw [List.tail_nil, List.length_nil, Nat.sub_zero, List.take_length]
      | cons beyond post =>
          have hlen : k + post.length + 1 = rest.length := by
            have := congrArg List.length hback
            rw [List.length_drop, List.length_cons] at this
            omega
          have hfirst : capBytes cap < 0 + total rowWeight (rest.take (k + 1)) :=
            hlargest (k + 1) (Nat.lt_succ_self k) (by omega)
          have hover : ∀ l, capBytes cap < total rowWeight (p :: (rest.take (k + 1) ++ l)) := by
            intro l
            have htotal : total rowWeight (rest.take (k + 1) ++ l) =
                total rowWeight (rest.take (k + 1)) + total rowWeight l := by
              rw [total, List.map_append, List.sum_append, total, total]
            have hp := hw p
            have hl := total_nonneg hw l
            rw [total_cons, htotal]
            linarith
          have hcount : rest.length - post.length = k + 1 := by omega
          rw [List.tail_cons, hcount]
          refine iff_of_false ?_ ?_
          · rintro ⟨j, hj, hkept⟩
            have hj2 : 2 ≤ j := by
              have := congrArg List.length hkept
              simp only [List.length_cons, List.length_take] at this
              omega
            rcases hj.fits with rfl | hfits
            · omega
            · rw [← hkept, ← List.append_nil (rest.take (k + 1))] at hfits
              exact absurd hfits (not_le.mpr (hover []))
          · rw [fills_self_iff]
            rintro (hone | hfits)
            · rw [List.length_cons] at hone
              omega
            · rw [← List.take_append_drop (k + 1) rest] at hfits
              exact absurd hfits (not_le.mpr (hover _))

end Databases

/-! ## The loop for volumes -/

section Volumes

variable {cap : ℚ} {rows : List VolumeRow}

def volumeWeight (p : VolumeRow) : ℚ := p.2.size

theorem sliceOver_succ (maxStorageBytes : ℚ) (index t : Nat) (rows : List VolumeRow) :
    sliceOver maxStorageBytes (index + 1) t rows =
      overflow volumeWeight maxStorageBytes t rows := by
  induction rows generalizing index t with
  | nil => rfl
  | cons p rows ih =>
      have hsum : ((t + p.2.size : Nat) : ℚ) = t + volumeWeight p := by
        rw [volumeWeight, Nat.cast_add]
      rw [sliceOver, overflow, ih, hsum]
      simp

/-- The cap of a volume backup keeps what it is to keep. -/
theorem fills_executionsOutsideRetention (hcap : 0 < cap) (now : Nat) (hrows : rows.Nodup) :
    Fills volumeWeight (capBytes cap) rows
      (rows.filter fun p => p ∉ executionsOutsideRetention (storageOnly cap) now rows) := by
  have hmem : ∀ q, q ∈ executionsOutsideRetention (storageOnly cap) now rows ↔
      q ∈ sliceOver (capBytes cap) 0 0 rows := by
    intro q
    have hne : ¬ ((0 : Int) = 0 ∧ (0 : Int) = 0 ∧ cap = 0) := fun h => hcap.ne' h.2.2
    rw [executionsOutsideRetention, storageOnly, if_neg hne, List.mem_eraseDups]
    simp [hcap]
    rfl
  cases rows with
  | nil => exact ⟨1, ⟨Nat.le_refl 1, .inl rfl, fun j hj hlen => absurd hlen (by simp; omega)⟩, rfl⟩
  | cons p rest =>
      have hw : ∀ q, 0 ≤ volumeWeight q := fun q => Nat.cast_nonneg _
      have hslice : sliceOver (capBytes cap) 0 0 (p :: rest) =
          overflow volumeWeight (capBytes cap) (volumeWeight p) rest := by
        rw [sliceOver, if_neg (by simp), sliceOver_succ, Nat.zero_add, volumeWeight]
      obtain ⟨k, hdrop, hfits, hlargest⟩ :=
        exists_overflow hw (capBytes cap) (volumeWeight p) rest
      refine ⟨k + 1, ⟨Nat.succ_pos k, ?_, fun j hj hlen => ?_⟩, ?_⟩
      · rw [List.take_succ_cons, total_cons]
        exact hfits.imp (fun hk => by rw [hk]) id
      · obtain ⟨j, rfl⟩ := Nat.exists_eq_succ_of_ne_zero (Nat.ne_of_gt (Nat.zero_lt_of_lt hj))
        rw [List.take_succ_cons, total_cons]
        exact hlargest j (Nat.lt_of_succ_lt_succ hj) (Nat.le_of_succ_le_succ hlen)
      · have hsplit : p :: rest = (p :: rest).take (k + 1) ++ (p :: rest).drop (k + 1) :=
          (List.take_append_drop ..).symm
        have hgone : ∀ q, q ∈ executionsOutsideRetention (storageOnly cap) now (p :: rest) ↔
            q ∈ (p :: rest).drop (k + 1) := fun q => by
          rw [hmem, hslice, hdrop, List.drop_succ_cons]
        refine filter_front hsplit (fun q hq => ?_) fun q hq => ?_
        · rw [decide_eq_true_iff, hgone]
          exact fun hq' => List.disjoint_take_drop hrows (Nat.le_refl _) hq hq'
        · rw [decide_eq_false_iff_not, not_not, hgone]
          exact hq

end Volumes

/-! ## Rows after a cleanup -/

section Rows

/-- The executions that still have their copies. -/
def keptOf {ρ : Type} (archives : List Archive) (t : Table ρ) (hasCopy : ρ → Bool) :
    List Archive :=
  archives.filter fun a => (t.get? a.execution).any hasCopy

/-- Deleting rows without a copy deletes none with one. -/
theorem any_get?_deleteWhere {ρ : Type} {t : Table ρ} {p : Nat → ρ → Bool} {q : ρ → Bool} {i : Nat}
    (h : ∀ e, t.get? i = some e → q e = true → p i e = false) :
    ((t.deleteWhere p).get? i).any q = (t.get? i).any q := by
  cases hget : t.get? i with
  | none =>
      have hnone : (t.deleteWhere p).get? i = none :=
        Option.eq_none_iff_forall_not_mem.mpr fun e he => by
          have := (Table.get?_deleteWhere.mp he).1
          rw [hget] at this
          cases this
      rw [hnone]
  | some e =>
      cases hq : q e with
      | true =>
          rw [Table.get?_deleteWhere.mpr ⟨hget, h e hget hq⟩]
      | false =>
          rw [Option.any_some, hq]
          cases hafter : (t.deleteWhere p).get? i with
          | none => rfl
          | some e' =>
              have hsame := (Table.get?_deleteWhere.mp hafter).1
              rw [hget] at hsame
              rw [← Option.some.inj hsame, Option.any_some, hq]

theorem any_fst {ρ : Type} {rows sub : List (Nat × ρ)} {t : Table ρ}
    (hrows : ∀ p ∈ rows, t.get? p.1 = some p.2) (hsub : ∀ p ∈ sub, p ∈ rows) {p : Nat × ρ}
    (hp : p ∈ rows) : sub.any (·.1 == p.1) = true ↔ p ∈ sub := by
  rw [List.any_eq_true]
  constructor
  · rintro ⟨q, hq, hid⟩
    have hget := hrows q (hsub q hq)
    rw [beq_iff_eq.mp hid, hrows p hp] at hget
    rwa [show p = q from Prod.ext (beq_iff_eq.mp hid).symm (Option.some.inj hget)]
  · exact fun hmem => ⟨p, hmem, beq_self_eq_true _⟩

namespace BackupStore

variable {d : BackupStore} {rows : List BackupRow} {limits : Retention}

/-- The execution has a file to its name. -/
def IsNamed (e : BackupExecution) : Prop :=
  ∃ f, e.filename = some f ∧ Value.truthy (.string f) = true

theorem eq_nil_of_filesToDelete (hnamed : ∀ p ∈ rows, IsNamed p.2)
    (h : (filesToDelete rows).isEmpty = true) : rows = [] := by
  by_contra hne
  obtain ⟨p, rest, rfl⟩ := List.exists_cons_of_ne_nil hne
  obtain ⟨f, hf, htruthy⟩ := hnamed p (List.mem_cons_self ..)
  have hmem : f ∈ filesToDelete (p :: rest) :=
    mem_filesToDelete.mpr ⟨htruthy, p, List.mem_cons_self .., hf⟩
  rw [List.isEmpty_iff.mp h] at hmem
  cases hmem

theorem get?_deleteOldBackupsLocally (hnamed : ∀ p ∈ limits.toDelete rows, IsNamed p.2) (i : Nat) :
    (d.deleteOldBackupsLocally limits rows).executions.get? i = (d.executions.get? i).map fun e =>
      if (limits.toDelete rows).any (·.1 == i) then { e with localStorageDeleted := true }
      else e := by
  rw [deleteOldBackupsLocally]
  split
  · next hempty =>
      rw [eq_nil_of_filesToDelete hnamed hempty]
      simp
  · exact Table.get?_updateWhere ..

theorem get?_deleteOldBackupsFromS3 {c : CleanUp} (hdeletes : c.s3Deletes = true)
    (hnamed : ∀ p ∈ limits.toDelete c.s3, IsNamed p.2) (i : Nat) :
    (d.deleteOldBackupsFromS3 limits c).executions.get? i = (d.executions.get? i).map fun e =>
      if (limits.toDelete c.s3).any (·.1 == i) then { e with s3StorageDeleted := true }
      else e := by
  rw [deleteOldBackupsFromS3, hdeletes, Bool.not_true, Bool.or_false]
  split
  · next hempty =>
      rw [eq_nil_of_filesToDelete hnamed hempty]
      simp
  · exact Table.get?_updateWhere ..

/-- The rows for S3 are those that the local part has left. -/
theorem lists_s3_of_removeOldBackups {cfg : BackupSchedule} {c : CleanUp} {d' : BackupStore}
    (hlocal : cfg.disableLocalBackup = false) (hs3 : c.hasS3 = true)
    (h : d.removeOldBackups cfg c = some d') :
    (d.deleteOldBackupsLocally cfg.locally c.locally).lists (·.s3StorageDeleted) c.s3 = true := by
  simp only [removeOldBackups, hlocal, hs3, Bool.false_eq_true, if_false, if_true,
    Option.bind_eq_bind, Option.pure_def] at h
  split at h
  · rw [Option.bind_some] at h
    split at h
    · next hlists => exact hlists
    · cases h
  · cases h

variable {c : CleanUp} {limits' : Retention} {p : BackupRow}

/-- Of the backups on the server those not selected stay. -/
theorem any_localCopy (hlists : d.lists (·.localStorageDeleted) c.locally = true)
    (hdeletes : c.s3Deletes = true) (hnamed : ∀ p ∈ c.locally ++ c.s3, IsNamed p.2)
    (hp : p ∈ c.locally) :
    ((((d.deleteOldBackupsLocally limits c.locally).deleteOldBackupsFromS3 limits'
      c).deleteGone.executions.get? p.1).any fun e => !e.localStorageDeleted) =
        decide (p ∉ limits.toDelete c.locally) := by
  have hin : ∀ q ∈ c.locally, d.executions.get? q.1 = some q.2 ∧ q.2.localStorageDeleted = false :=
    fun q hq => ⟨((mem_lists hlists).mp hq).1, ((mem_lists hlists).mp hq).2.2⟩
  have hselected := any_fst (fun q hq => (hin q hq).1)
    (fun q hq => Retention.toDelete_subset (r := limits) q hq) hp
  have hother : ∀ (b : Bool) (e : BackupExecution),
      (if b = true then { e with s3StorageDeleted := true } else e).localStorageDeleted =
        e.localStorageDeleted := fun b e => by cases b <;> rfl
  rw [deleteGone, any_get?_deleteWhere fun e _ he => by simp_all,
    any_get?_deleteWhere fun e _ he => by simp_all,
    get?_deleteOldBackupsFromS3 hdeletes fun q hq =>
      hnamed q (List.mem_append_right _ (Retention.toDelete_subset q hq)),
    get?_deleteOldBackupsLocally fun q hq =>
      hnamed q (List.mem_append_left _ (Retention.toDelete_subset q hq)), (hin p hp).1,
    Option.map_some, Option.map_some, Option.any_some, hother]
  by_cases hsel : p ∈ limits.toDelete c.locally
  · rw [if_pos (hselected.mpr hsel)]
    simp [hsel]
  · rw [if_neg fun h => hsel (hselected.mp h), (hin p hp).2]
    simp [hsel]

/-- And of those in S3. -/
theorem any_copyInS3 (hlists : d.lists (·.s3StorageDeleted) c.s3 = true)
    (hdeletes : c.s3Deletes = true) (hnamed : ∀ p ∈ c.s3, IsNamed p.2)
    (huploaded : ∀ p ∈ c.s3, p.2.s3Uploaded = some true) (hp : p ∈ c.s3) :
    (((d.deleteOldBackupsFromS3 limits c).deleteGone.executions.get? p.1).any
      fun e => !e.s3StorageDeleted) = decide (p ∉ limits.toDelete c.s3) := by
  have hin : ∀ q ∈ c.s3, d.executions.get? q.1 = some q.2 ∧ q.2.s3StorageDeleted = false :=
    fun q hq => ⟨((mem_lists hlists).mp hq).1, ((mem_lists hlists).mp hq).2.2⟩
  have hselected := any_fst (fun q hq => (hin q hq).1)
    (fun q hq => Retention.toDelete_subset (r := limits) q hq) hp
  have hget := get?_deleteOldBackupsFromS3 (d := d) hdeletes
    (fun q hq => hnamed q (Retention.toDelete_subset (r := limits) q hq)) p.1
  rw [(hin p hp).1, Option.map_some] at hget
  have huploaded' : ∀ e, (d.deleteOldBackupsFromS3 limits c).executions.get? p.1 = some e →
      e.s3Uploaded = some true := by
    intro e he
    rw [hget] at he
    rw [← Option.some.inj he, ← huploaded p hp]
    split <;> rfl
  rw [deleteGone, any_get?_deleteWhere fun e he _ => by
      have := Table.get?_deleteWhere.mp he
      simp [huploaded' e this.1],
    any_get?_deleteWhere fun e _ he => by simp_all, hget, Option.any_some]
  by_cases hsel : p ∈ limits.toDelete c.s3
  · rw [if_pos (hselected.mpr hsel)]
    simp [hsel]
  · rw [if_neg fun h => hsel (hselected.mp h), (hin p hp).2]
    simp [hsel]

end BackupStore

namespace VolumeStore

/-- A cleanup whose deletions succeed, part by part. -/
theorem removeExpiredBackups_eq {cfg : VolumeSchedule} {v v' : VolumeStore} {c : VolumeCleanUp}
    (hlocally : hasRetentionLimits cfg.locally = true) (hinS3 : hasRetentionLimits cfg.inS3 = true)
    (hsave : cfg.saveS3 = true ∧ cfg.s3.isSome = true)
    (hends : (v.expireLocally cfg.locally c).2 = true)
    (h : v.removeExpiredBackups cfg c = some v') :
    v.lists hasLocalCopy c.locally = true ∧
      (v.expireLocally cfg.locally c).1.lists hasCopyInS3 c.inS3 = true ∧
      (((v.expireLocally cfg.locally c).1.expireInS3 cfg.inS3 c).2 = true →
        v' = ((v.expireLocally cfg.locally c).1.expireInS3 cfg.inS3 c).1.deleteGone) := by
  simp only [removeExpiredBackups, hlocally, hinS3, hsave.1, hsave.2, Bool.and_self, if_true,
    Option.bind_eq_bind, Option.pure_def] at h
  split at h
  · next hlists =>
      rw [Option.bind_some] at h
      rw [hends, Bool.not_true, if_neg Bool.false_ne_true] at h
      split at h
      · next hs3 =>
          refine ⟨hlists, hs3, fun hdone => ?_⟩
          rw [Option.bind_some, if_pos hdone] at h
          exact (Option.some.inj h).symm
      · cases h
  · cases h

variable {v : VolumeStore} {c : VolumeCleanUp} {limits limits' : Retention} {p : VolumeRow}

/-- Where every storage takes its deletions, all that is expired is noted. -/
theorem expireInS3_of_deletes (v : VolumeStore) (limits : Retention)
    (hdeletes : ∀ s, c.hasStorage s = true ∧ c.s3Deletes s = true)
    (hnamed : ∀ p ∈ c.inS3, IsNamed p.2) (hstored : ∀ p ∈ c.inS3, p.2.s3StorageId.isSome = true) :
    (v.expireInS3 limits c).2 = true ∧ ∀ i, (v.expireInS3 limits c).1.executions.get? i =
      (v.executions.get? i).map fun e =>
        if (executionsOutsideRetention limits c.now c.inS3).any (·.1 == i) then
          { e with s3StorageDeleted := true } else e := by
  have hsub := @outside_subset c.inS3 limits c.now
  have hids : ∀ s ∈ ((executionsOutsideRetention limits c.now c.inS3).map
      (·.2.s3StorageId)).eraseDups, s.isSome = true := by
    intro s hs
    obtain ⟨p, hp, rfl⟩ := List.mem_map.mp (List.mem_eraseDups.mp hs)
    exact hstored p (hsub p hp)
  obtain ⟨v', hfold, hget⟩ := foldl_expireGroup (fun s => (hdeletes s).1)
    (fun s => (hdeletes s).2) (fun p hp => hnamed p (hsub p hp)) hids v
  rw [expireInS3, hfold]
  refine ⟨rfl, fun i => ?_⟩
  rw [hget]
  have hany : ((executionsOutsideRetention limits c.now c.inS3).any fun q => q.1 == i &&
      (((executionsOutsideRetention limits c.now c.inS3).map (·.2.s3StorageId)).eraseDups).contains
        q.2.s3StorageId) =
      (executionsOutsideRetention limits c.now c.inS3).any (·.1 == i) := by
    rw [Bool.eq_iff_iff, List.any_eq_true, List.any_eq_true]
    constructor
    · rintro ⟨q, hq, h⟩
      exact ⟨q, hq, (Bool.and_eq_true_iff.mp h).1⟩
    · rintro ⟨q, hq, h⟩
      refine ⟨q, hq, Bool.and_eq_true_iff.mpr ⟨h, ?_⟩⟩
      exact List.contains_iff_mem.mpr
        (List.mem_eraseDups.mpr (List.mem_map.mpr ⟨q, hq, rfl⟩))
  rw [hany]

theorem any_localCopy (hlists : v.lists hasLocalCopy c.locally = true)
    (hremoves : c.removes = true) (hdeletes : ∀ s, c.hasStorage s = true ∧ c.s3Deletes s = true)
    (hnamed : ∀ p ∈ c.locally ++ c.inS3, IsNamed p.2)
    (hstored : ∀ p ∈ c.inS3, p.2.s3StorageId.isSome = true) (hp : p ∈ c.locally) :
    (((((v.expireLocally limits c).1.expireInS3 limits' c).1.deleteGone).executions.get? p.1).any
      fun e => !e.localStorageDeleted) =
        decide (p ∉ executionsOutsideRetention limits c.now c.locally) := by
  have hin : ∀ q ∈ c.locally, v.executions.get? q.1 = some q.2 ∧ q.2.localStorageDeleted = false :=
    fun q hq => ⟨((mem_lists hlists).mp hq).1, by
      simpa [hasLocalCopy] using ((mem_lists hlists).mp hq).2.2⟩
  have hselected := any_fst (fun q hq => (hin q hq).1)
    (outside_subset limits c.now) hp
  have hother : ∀ (b : Bool) (e : VolumeArchive),
      (if b = true then { e with s3StorageDeleted := true } else e).localStorageDeleted =
        e.localStorageDeleted := fun b e => by cases b <;> rfl
  have hlocal := (expireLocally_of_removes (v := v) (r := limits) hremoves fun q hq =>
    hnamed q (List.mem_append_left _ (outside_subset _ _ q hq))).2 p.1
  have hs3 := (expireInS3_of_deletes (v.expireLocally limits c).1 limits' hdeletes
    (fun q hq => hnamed q (List.mem_append_right _ hq)) hstored).2 p.1
  rw [deleteGone, any_get?_deleteWhere fun e _ he => by simp_all [isGone], hs3, hlocal,
    (hin p hp).1, Option.map_some, Option.map_some, Option.any_some, hother]
  by_cases hsel : p ∈ executionsOutsideRetention limits c.now c.locally
  · rw [if_pos (hselected.mpr hsel)]
    simp [hsel]
  · rw [if_neg fun h => hsel (hselected.mp h), (hin p hp).2]
    simp [hsel]

theorem any_copyInS3 (hlists : v.lists hasCopyInS3 c.inS3 = true)
    (hdeletes : ∀ s, c.hasStorage s = true ∧ c.s3Deletes s = true)
    (hnamed : ∀ p ∈ c.inS3, IsNamed p.2)
    (hstored : ∀ p ∈ c.inS3, p.2.s3StorageId.isSome = true) (hp : p ∈ c.inS3) :
    (((v.expireInS3 limits c).1.deleteGone.executions.get? p.1).any
      fun e => !e.s3StorageDeleted) =
        decide (p ∉ executionsOutsideRetention limits c.now c.inS3) := by
  have hin : ∀ q ∈ c.inS3, v.executions.get? q.1 = some q.2 ∧ q.2.s3Uploaded = some true ∧
      q.2.s3StorageDeleted = false :=
    fun q hq => ⟨((mem_lists hlists).mp hq).1, by
      simpa [hasCopyInS3] using ((mem_lists hlists).mp hq).2.2⟩
  have hselected := any_fst (fun q hq => (hin q hq).1)
    (outside_subset limits c.now) hp
  have hget := (expireInS3_of_deletes v limits hdeletes hnamed hstored).2 p.1
  rw [(hin p hp).1, Option.map_some] at hget
  rw [deleteGone, any_get?_deleteWhere fun e he hs3 => by
      rw [hget] at he
      have huploaded : e.s3Uploaded = some true := by
        rw [← Option.some.inj he, ← (hin p hp).2.1]
        split <;> rfl
      simp_all [isGone], hget, Option.any_some]
  by_cases hsel : p ∈ executionsOutsideRetention limits c.now c.inS3
  · rw [if_pos (hselected.mpr hsel)]
    simp [hsel]
  · rw [if_neg fun h => hsel (hselected.mp h), (hin p hp).2.2]
    simp [hsel]

end VolumeStore

end Rows

/-! ## Two cleanups -/

/-- The same successful backups of a database and of a volume, on the server and in
S3, a cap on both storages, and a cleanup of each whose deletions succeed. -/
structure CappedCleanups (cap : ℚ) (archives : List Archive) where
  cfg : BackupSchedule
  backups : BackupStore
  cleanUp : CleanUp
  cleaned : BackupStore
  volumeCfg : VolumeSchedule
  volumes : VolumeStore
  volumeCleanUp : VolumeCleanUp
  cleanedVolumes : VolumeStore
  /-- The latest first. -/
  times : archives.Pairwise fun a b => b.createdAt < a.createdAt
  capped : cfg.locally = storageOnly cap ∧ cfg.s3 = storageOnly cap ∧
    cfg.disableLocalBackup = false
  volumeCapped : volumeCfg.locally = storageOnly cap ∧ volumeCfg.inS3 = storageOnly cap ∧
    volumeCfg.saveS3 = true ∧ volumeCfg.s3.isSome = true
  rows : cleanUp.locally.map archiveOf = archives ∧ cleanUp.s3.map archiveOf = archives
  volumeRows : volumeCleanUp.locally.map archiveOfVolume = archives ∧
    volumeCleanUp.inS3.map archiveOfVolume = archives
  named : ∀ p ∈ cleanUp.locally ++ cleanUp.s3, BackupStore.IsNamed p.2
  uploaded : ∀ p ∈ cleanUp.s3, p.2.s3Uploaded = some true
  volumeNamed : ∀ p ∈ volumeCleanUp.locally ++ volumeCleanUp.inS3, VolumeStore.IsNamed p.2
  stored : ∀ p ∈ volumeCleanUp.inS3, p.2.s3StorageId.isSome = true
  deletes : cleanUp.hasS3 = true ∧ cleanUp.s3Deletes = true
  volumeDeletes : volumeCleanUp.removes = true ∧ (∀ s, volumeCleanUp.hasStorage s = true) ∧
    ∀ s, volumeCleanUp.s3Deletes s = true
  ran : backups.removeOldBackups cfg cleanUp = some cleaned
  volumeRan : volumes.removeExpiredBackups volumeCfg volumeCleanUp = some cleanedVolumes

namespace CappedCleanups

variable {cap : ℚ} {archives : List Archive} (s : CappedCleanups cap archives)

def keptLocally : List Archive :=
  keptOf archives s.cleaned.executions fun e => !e.localStorageDeleted

def keptInS3 : List Archive := keptOf archives s.cleaned.executions fun e => !e.s3StorageDeleted

def volumesKeptLocally : List Archive :=
  keptOf archives s.cleanedVolumes.executions fun e => !e.localStorageDeleted

def volumesKeptInS3 : List Archive :=
  keptOf archives s.cleanedVolumes.executions fun e => !e.s3StorageDeleted

/-- Everywhere the largest front that fits is kept, and the same of both. -/
structure KeepsCap : Prop where
  locally : Fills Archive.weight (capBytes cap) archives s.keptLocally
  inS3 : Fills Archive.weight (capBytes cap) archives s.keptInS3
  volumesLocally : Fills Archive.weight (capBytes cap) archives s.volumesKeptLocally
  volumesInS3 : Fills Archive.weight (capBytes cap) archives s.volumesKeptInS3
  same : s.keptLocally = s.volumesKeptLocally ∧ s.keptInS3 = s.volumesKeptInS3


theorem keptOf_eq {ρ : Type} {rows : List (Nat × ρ)} {f : Nat × ρ → Archive}
    (hrows : rows.map f = archives) (hf : ∀ p, (f p).execution = p.1) {t : Table ρ}
    {hasCopy : ρ → Bool} {keep : Nat × ρ → Bool}
    (hkeep : ∀ p ∈ rows, (t.get? p.1).any hasCopy = keep p) :
    keptOf archives t hasCopy = (rows.filter keep).map f := by
  rw [← hrows, keptOf, List.filter_map]
  exact congrArg _ (List.filter_congr fun p hp => by rw [Function.comp, hf, hkeep p hp])

include s in
theorem times_of_map {ρ : Type} {rows : List ρ} {f : ρ → Archive} (hrows : rows.map f = archives) :
    rows.Pairwise fun p q => (f q).createdAt < (f p).createdAt :=
  List.pairwise_map.mp (hrows ▸ s.times)

theorem keptLocally_eq (hcap : 0 < cap) :
    s.keptLocally = (withinAndOneOver cap s.cleanUp.locally).map archiveOf := by
  obtain ⟨hlocally, -, hlocal⟩ := s.capped
  obtain ⟨hlists, hcleaned⟩ := removeOldBackups_eq hlocal s.ran
  rw [if_pos s.deletes.1, hlocally] at hcleaned
  rw [← kept_storageOnly hcap (s.times_of_map s.rows.1), keptLocally, hcleaned]
  exact keptOf_eq s.rows.1 (fun _ => rfl) fun p hp =>
    BackupStore.any_localCopy hlists s.deletes.2 s.named hp

theorem keptInS3_eq (hcap : 0 < cap) :
    s.keptInS3 = (withinAndOneOver cap s.cleanUp.s3).map archiveOf := by
  obtain ⟨-, hs3, hlocal⟩ := s.capped
  obtain ⟨-, hcleaned⟩ := removeOldBackups_eq hlocal s.ran
  have hlists := BackupStore.lists_s3_of_removeOldBackups hlocal s.deletes.1 s.ran
  rw [if_pos s.deletes.1, hs3] at hcleaned
  rw [← kept_storageOnly hcap (s.times_of_map s.rows.2), keptInS3, hcleaned]
  exact keptOf_eq s.rows.2 (fun _ => rfl) fun p hp => BackupStore.any_copyInS3 hlists s.deletes.2
    (fun q hq => s.named q (List.mem_append_right _ hq)) s.uploaded hp

/-- A cleanup of volume backups keeps both caps. -/
theorem fills_volumes (hcap : 0 < cap) :
    Fills Archive.weight (capBytes cap) archives s.volumesKeptLocally ∧
      Fills Archive.weight (capBytes cap) archives s.volumesKeptInS3 := by
  obtain ⟨hlocally, hinS3, hsave⟩ := s.volumeCapped
  obtain ⟨hremoves, hstorage, hs3⟩ := s.volumeDeletes
  have hdeletes : ∀ n, s.volumeCleanUp.hasStorage n = true ∧ s.volumeCleanUp.s3Deletes n = true :=
    fun n => ⟨hstorage n, hs3 n⟩
  have hlimits : hasRetentionLimits (storageOnly cap) = true := by
    simp [hasRetentionLimits, storageOnly, hcap]
  have hends := (VolumeStore.expireLocally_of_removes (v := s.volumes)
    (r := s.volumeCfg.locally) hremoves fun q hq =>
      s.volumeNamed q (List.mem_append_left _ (VolumeStore.outside_subset _ _ q hq))).1
  have hnamed : ∀ p ∈ s.volumeCleanUp.inS3, VolumeStore.IsNamed p.2 :=
    fun q hq => s.volumeNamed q (List.mem_append_right _ hq)
  obtain ⟨hlists, hlists', hcleaned⟩ := VolumeStore.removeExpiredBackups_eq
    (hlocally ▸ hlimits) (hinS3 ▸ hlimits) hsave hends s.volumeRan
  have hcleaned := hcleaned (VolumeStore.expireInS3_of_deletes _ _ hdeletes hnamed s.stored).1
  constructor
  · have hfills := (fills_executionsOutsideRetention hcap s.volumeCleanUp.now
      (VolumeStore.lists_nodup hlists)).map (f := archiveOfVolume) (w := Archive.weight)
    rw [volumesKeptLocally, hcleaned, keptOf_eq s.volumeRows.1 (fun _ => rfl) fun p hp =>
      VolumeStore.any_localCopy hlists hremoves hdeletes s.volumeNamed s.stored hp, hlocally]
    rwa [s.volumeRows.1] at hfills
  · have hfills := (fills_executionsOutsideRetention hcap s.volumeCleanUp.now
      (VolumeStore.lists_nodup hlists')).map (f := archiveOfVolume) (w := Archive.weight)
    rw [volumesKeptInS3, hcleaned, keptOf_eq s.volumeRows.2 (fun _ => rfl) fun p hp =>
      VolumeStore.any_copyInS3 hlists' hdeletes hnamed s.stored hp, hinS3]
    rwa [s.volumeRows.2] at hfills

/-- The cap is kept everywhere if and only if nothing has to be deleted for it. -/
theorem keepsCap_iff (hcap : 0 < cap) :
    s.KeepsCap ↔ archives.length ≤ 1 ∨ total Archive.weight archives ≤ capBytes cap := by
  have hmap : ∀ {rows : List BackupRow}, rows.map archiveOf = archives →
      (Fills Archive.weight (capBytes cap) archives ((withinAndOneOver cap rows).map archiveOf) ↔
        archives.length ≤ 1 ∨ total Archive.weight archives ≤ capBytes cap) := by
    intro rows hrows
    rw [← hrows, List.length_map, total_map]
    constructor
    · intro h
      exact fills_withinAndOneOver_iff.mp
        (Fills.of_map (f := archiveOf) (w := Archive.weight) (withinAndOneOver_front cap rows) h)
    · intro h
      exact Fills.map (f := archiveOf) (w := Archive.weight) (fills_withinAndOneOver_iff.mpr h)
  obtain ⟨hvolumes, hvolumesInS3⟩ := s.fills_volumes hcap
  constructor
  · intro h
    have hlocally := h.locally
    rwa [s.keptLocally_eq hcap, hmap s.rows.1] at hlocally
  · intro h
    have hlocally := (hmap s.rows.1).mpr h
    have hinS3 := (hmap s.rows.2).mpr h
    rw [← s.keptLocally_eq hcap] at hlocally
    rw [← s.keptInS3_eq hcap] at hinS3
    exact ⟨hlocally, hinS3, hvolumes, hvolumesInS3, hlocally.unique hvolumes,
      hinS3.unique hvolumesInS3⟩

end CappedCleanups

/-! ### Three backups of 1.5 GB, and a cap of 2 GB -/

def threeArchives : List Archive :=
  [⟨3, 1790886400, 1610612736⟩, ⟨2, 1790800000, 1610612736⟩, ⟨1, 1790713600, 1610612736⟩]

def databaseExecution (a : Archive) : BackupExecution where
  uuid := "u" ++ toString a.execution
  databaseName := "shop"
  createdAt := a.createdAt
  status := .success
  size := a.size
  filename := some
    ("/data/coolify/backups/databases/pg-dump-shop-" ++ (toString a.createdAt ++ ".dmp"))
  localStorageDeleted := false
  s3StorageDeleted := false
  s3Uploaded := some true

def volumeExecution (localStorageDeleted : Bool) (a : Archive) : VolumeArchive where
  createdAt := a.createdAt
  status := .success
  size := a.size
  filename := some
    ("/data/coolify/backups/volumes/volume-data-" ++ (toString a.createdAt ++ ".tar.gz"))
  s3StorageId := some 1
  localStorageDeleted := localStorageDeleted
  s3StorageDeleted := false
  s3Uploaded := some true

def tableOf {ρ : Type} (rows : List ρ) : Table ρ := rows.foldr (fun r t => t.insert r) .empty

def threeDatabaseBackups : BackupStore where
  executions := tableOf (threeArchives.map databaseExecution)
  files := (threeArchives.map databaseExecution).filterMap (·.filename)
  history := []

def threeVolumeBackups : VolumeStore where
  executions := tableOf (threeArchives.map (volumeExecution false))
  files := fun _ => none
  objects := fun _ _ => none

def cappedSchedule (cap : ℚ) : BackupSchedule where
  kind := .postgresql
  dumpAll := false
  backupDir := "/data/coolify/backups/databases"
  disableLocalBackup := false
  locally := storageOnly cap
  s3 := storageOnly cap

def cappedVolumeSchedule (cap : ℚ) : VolumeSchedule where
  saveS3 := true
  s3 := some 1
  disableLocalBackup := false
  locally := storageOnly cap
  inS3 := storageOnly cap

def databaseRows : List BackupRow := threeArchives.map fun a => (a.execution, databaseExecution a)

def threeCleanUp : CleanUp := ⟨databaseRows, databaseRows, true, true⟩

/-- The local part has left the latest archive alone. -/
def threeVolumeCleanUp : VolumeCleanUp where
  now := 1790886500
  locally := threeArchives.map fun a => (a.execution, volumeExecution false a)
  inS3 := threeArchives.map fun a => (a.execution, volumeExecution (decide (a.execution < 3)) a)
  removes := true
  hasStorage := fun _ => true
  s3Deletes := fun _ => true
  taken := fun _ => false

theorem eq_some_getD {α : Type} {o : Option α} (h : o.isSome = true) (a : α) :
    o = some (o.getD a) := by
  cases o with
  | none => cases h
  | some b => rfl

theorem truthy_append (front : String) {rest : String} (h : front.toList.head? = some '/') :
    Value.truthy (.string (front ++ rest)) = true := by
  rw [Value.truthy, Bool.and_eq_true, bne_iff_ne, bne_iff_ne]
  have hhead : (front ++ rest).toList.head? = some '/' := by
    rw [String.toList_append, List.head?_append, h, Option.some_or]
  constructor <;> intro heq <;> rw [heq] at hhead <;> exact absurd hhead (by decide)

theorem named_databaseExecution (a : Archive) : BackupStore.IsNamed (databaseExecution a) :=
  ⟨_, rfl, truthy_append _ rfl⟩

theorem named_volumeExecution (b : Bool) (a : Archive) :
    VolumeStore.IsNamed (volumeExecution b a) :=
  ⟨_, rfl, truthy_append _ rfl⟩

def threeCleanups : CappedCleanups 2 threeArchives where
  cfg := cappedSchedule 2
  backups := threeDatabaseBackups
  cleanUp := threeCleanUp
  cleaned := (threeDatabaseBackups.removeOldBackups (cappedSchedule 2) threeCleanUp).getD
    threeDatabaseBackups
  volumeCfg := cappedVolumeSchedule 2
  volumes := threeVolumeBackups
  volumeCleanUp := threeVolumeCleanUp
  cleanedVolumes := (threeVolumeBackups.removeExpiredBackups (cappedVolumeSchedule 2)
    threeVolumeCleanUp).getD threeVolumeBackups
  times := by decide
  capped := ⟨rfl, rfl, rfl⟩
  volumeCapped := ⟨rfl, rfl, rfl, rfl⟩
  rows := ⟨rfl, rfl⟩
  volumeRows := ⟨rfl, rfl⟩
  named := by
    intro p hp
    obtain ⟨a, -, rfl⟩ | ⟨a, -, rfl⟩ := (List.mem_append.mp hp).imp List.mem_map.mp List.mem_map.mp
    all_goals exact named_databaseExecution a
  uploaded := by
    intro p hp
    obtain ⟨a, -, rfl⟩ := List.mem_map.mp hp
    rfl
  volumeNamed := by
    intro p hp
    obtain ⟨a, -, rfl⟩ | ⟨a, -, rfl⟩ := (List.mem_append.mp hp).imp List.mem_map.mp List.mem_map.mp
    all_goals exact named_volumeExecution _ a
  stored := by
    intro p hp
    obtain ⟨a, -, rfl⟩ := List.mem_map.mp hp
    rfl
  deletes := ⟨rfl, rfl⟩
  volumeDeletes := ⟨rfl, fun _ => rfl, fun _ => rfl⟩
  ran := eq_some_getD (by decide +kernel) _
  volumeRan := eq_some_getD (by decide +kernel) _

theorem three_backups_capped :
    threeCleanups.KeepsCap ↔
      threeArchives.length ≤ 1 ∨ total Archive.weight threeArchives ≤ capBytes 2 :=
  CappedCleanups.keepsCap_iff threeCleanups (by norm_num)

/-- Both copies of the third backup stay, and 4.5 GB are kept under a cap of 2 GB. -/
theorem cap_of_two_exceeded :
    ¬ ∀ (cap : ℚ) (archives : List Archive) (s : CappedCleanups cap archives),
      0 < cap → s.KeepsCap := by
  intro h
  have hkept : threeCleanups.keptLocally = threeArchives := by decide +kernel
  have hfills := (h 2 threeArchives threeCleanups (by norm_num)).locally
  rw [hkept, fills_self_iff] at hfills
  have htotal : total Archive.weight threeArchives = 4831838208 := by
    norm_num [total, threeArchives, Archive.weight]
  have hbytes : capBytes 2 = 2147483648 := by
    norm_num [capBytes, storageOnly, Retention.maxStorageBytes]
  rcases hfills with hone | hfits
  · exact absurd hone (by decide)
  · rw [htotal, hbytes] at hfits
    norm_num at hfits

end OnePloy
