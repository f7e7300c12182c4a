import OnePloy.Lib.PhpText
import Mathlib.Data.List.Nodup

/-!
# Names of the volumes of a cloned application

`clone_application` gives every persistent volume of the source a copy. In a
name that begins with the uuid of the source, the uuid of the clone takes its
place wherever it stands; of any other name the copy keeps only what follows the
last dash.

What the two rules write begins with the new uuid either way, and what follows
decides whether two copies are one Docker volume.
-/

namespace OnePloy

open Php

/-- A row of `local_persistent_volumes`. -/
structure PersistentVolume where
  name : String
  mountPath : String
  hostPath : Option String
  resourceId : Nat
  deriving DecidableEq, Repr

/-- The source of a clone, and what is new about it. -/
structure Cloning where
  sourceUuid : String
  newUuid : String
  newId : Nat
  sourceUuid_ne : sourceUuid.toList ≠ []

namespace Cloning

def newName (c : Cloning) (name : String) : String :=
  if strStartsWith name c.sourceUuid then strReplace c.sourceUuid c.newUuid name
  else c.newUuid ++ "-" ++ afterLast '-' name

/-- `replicate` and `fill`. -/
def cloneVolume (c : Cloning) (volume : PersistentVolume) : PersistentVolume :=
  { volume with name := c.newName volume.name, resourceId := c.newId }

def cloneVolumes (c : Cloning) (volumes : List PersistentVolume) : List PersistentVolume :=
  volumes.map c.cloneVolume

/-- No two copies are one Docker volume, and no copy is one of the source. -/
structure Separates (c : Cloning) (volumes : List PersistentVolume) : Prop where
  copies : ((c.cloneVolumes volumes).map (·.name)).Nodup
  source : ∀ copy ∈ c.cloneVolumes volumes, ∀ volume ∈ volumes, copy.name ≠ volume.name

/-! ## What the names must not say -/

/-- The name does not begin with the uuid of the source. -/
def Foreign (c : Cloning) (name : String) : Prop := ¬ strStartsWith name c.sourceUuid

/-- What tells the copies of these names apart. A name that has the uuid of the
source twice counts as it reads with the new one. -/
structure Separable (c : Cloning) (names : List String) : Prop where
  foreign : ∀ n ∈ names, ∀ m ∈ names, c.Foreign n → c.Foreign m →
    afterLast '-' n = afterLast '-' m → n = m
  foreign_own : ∀ n ∈ names, c.Foreign n → ¬ strContains ("-" ++ afterLast '-' n) c.sourceUuid →
    c.sourceUuid ++ ("-" ++ afterLast '-' n) ∉ names
  foreign_new : ∀ n ∈ names, c.Foreign n → c.newUuid ++ "-" ++ afterLast '-' n ∉ names
  own_new : ∀ rest, c.sourceUuid ++ rest ∈ names → ¬ strContains rest c.sourceUuid →
    c.newUuid ++ rest ∉ names
  twice : ∀ rest, c.sourceUuid ++ rest ∈ names → strContains rest c.sourceUuid →
    let written := strReplace c.sourceUuid c.newUuid (c.sourceUuid ++ rest)
    written ∉ names ∧
      (∀ m ∈ names, c.Foreign m → c.newUuid ++ "-" ++ afterLast '-' m ≠ written) ∧
      ∀ m ∈ names, ¬ c.Foreign m → strReplace c.sourceUuid c.newUuid m = written →
        m = c.sourceUuid ++ rest

/-! ## Names, taken apart -/

variable {c : Cloning} {names : List String} {n m rest : String}

theorem newName_foreign (h : c.Foreign n) : c.newName n = c.newUuid ++ "-" ++ afterLast '-' n :=
  if_neg h

theorem newName_own (h : ¬ c.Foreign n) : c.newName n = strReplace c.sourceUuid c.newUuid n :=
  if_pos (not_not.mp h)

theorem own_iff : ¬ c.Foreign n ↔ ∃ rest, n = c.sourceUuid ++ rest := by
  rw [Foreign, not_not, strStartsWith_iff]
  constructor
  · rintro ⟨rest, hrest⟩
    refine ⟨String.ofList rest, String.toList_injective ?_⟩
    rw [String.toList_append, String.toList_ofList, hrest]
  · rintro ⟨rest, rfl⟩
    exact ⟨rest.toList, (String.toList_append ..).symm⟩

/-- The uuid stands in the name once: the rest stays as it is. -/
theorem newName_once (h : ¬ strContains rest c.sourceUuid) :
    c.newName (c.sourceUuid ++ rest) = c.newUuid ++ rest := by
  rw [newName_own (own_iff.mpr ⟨rest, rfl⟩)]
  refine String.toList_injective ?_
  rw [strReplace, String.toList_ofList, String.toList_append, replaceChars_hit c.sourceUuid_ne,
    replaceChars_of_not_infix _ fun hin => h (strContains_iff.mpr hin), String.toList_append]

/-! ## When the copies are apart -/

theorem separates_iff {volumes : List PersistentVolume} :
    c.Separates volumes ↔
      ((volumes.map (·.name)).map c.newName).Nodup ∧
        ∀ n ∈ volumes.map (·.name), c.newName n ∉ volumes.map (·.name) := by
  have hnames : (c.cloneVolumes volumes).map (·.name) = (volumes.map (·.name)).map c.newName := by
    rw [cloneVolumes, List.map_map, List.map_map]
    rfl
  constructor
  · rintro ⟨hcopies, hsource⟩
    refine ⟨hnames ▸ hcopies, fun n hn hmem => ?_⟩
    obtain ⟨v, hv, rfl⟩ := List.mem_map.mp hn
    obtain ⟨w, hw, heq⟩ := List.mem_map.mp hmem
    exact hsource _ (List.mem_map_of_mem hv) w hw heq.symm
  · rintro ⟨hcopies, hsource⟩
    refine ⟨hnames ▸ hcopies, fun copy hcopy v hv heq => ?_⟩
    obtain ⟨w, hw, rfl⟩ := List.mem_map.mp hcopy
    exact hsource w.name (List.mem_map_of_mem hw) (List.mem_map.mpr ⟨v, hv, heq.symm⟩)

theorem foreign_ne_own (hn : c.Foreign n) (hm : ¬ c.Foreign m) : n ≠ m :=
  fun heq => hm (heq ▸ hn)

namespace Separable

/-- The copy of a foreign name is not that of an own one. -/
theorem newName_ne (h : c.Separable names) (hn : n ∈ names) (hfn : c.Foreign n) (hm : m ∈ names)
    (hfm : ¬ c.Foreign m) : c.newName n ≠ c.newName m := by
  obtain ⟨rest, rfl⟩ := own_iff.mp hfm
  rw [newName_foreign hfn]
  by_cases htwice : strContains rest c.sourceUuid
  · rw [newName_own hfm]
    exact (h.twice rest hm htwice).2.1 n hn hfn
  · rw [newName_once htwice, String.append_assoc]
    intro heq
    have hrest := (String.append_right_inj _).mp heq
    exact h.foreign_own n hn hfn (hrest ▸ htwice) (hrest ▸ hm)

/-- Names that are told apart get different copies. -/
theorem newName_inj (h : c.Separable names) (hn : n ∈ names) (hm : m ∈ names)
    (heq : c.newName n = c.newName m) : n = m := by
  by_cases hfn : c.Foreign n <;> by_cases hfm : c.Foreign m
  · rw [newName_foreign hfn, newName_foreign hfm] at heq
    exact h.foreign n hn m hm hfn hfm ((String.append_right_inj _).mp heq)
  · exact absurd heq (h.newName_ne hn hfn hm hfm)
  · exact absurd heq.symm (h.newName_ne hm hfm hn hfn)
  · obtain ⟨a, rfl⟩ := own_iff.mp hfn
    obtain ⟨b, rfl⟩ := own_iff.mp hfm
    by_cases ha : strContains a c.sourceUuid
    · rw [newName_own hfn, newName_own hfm] at heq
      exact ((h.twice a hn ha).2.2 _ hm hfm heq.symm).symm
    · by_cases hb : strContains b c.sourceUuid
      · rw [newName_own hfn, newName_own hfm] at heq
        exact (h.twice b hm hb).2.2 _ hn hfn heq
      · rw [newName_once ha, newName_once hb, String.append_right_inj] at heq
        rw [heq]

theorem newName_notMem (h : c.Separable names) (hn : n ∈ names) : c.newName n ∉ names := by
  by_cases hfn : c.Foreign n
  · rw [newName_foreign hfn]
    exact h.foreign_new n hn hfn
  · obtain ⟨rest, rfl⟩ := own_iff.mp hfn
    by_cases htwice : strContains rest c.sourceUuid
    · rw [newName_own hfn]
      exact (h.twice rest hn htwice).1
    · rw [newName_once htwice]
      exact h.own_new rest hn htwice

/-- Nothing less tells the copies apart. -/
theorem of_newName (hinj : ∀ n ∈ names, ∀ m ∈ names, c.newName n = c.newName m → n = m)
    (hnew : ∀ n ∈ names, c.newName n ∉ names) : c.Separable names where
  foreign n hn m hm hfn hfm heq := hinj n hn m hm (by
    rw [newName_foreign hfn, newName_foreign hfm, heq])
  foreign_own n hn hfn honce hmem := by
    have hown : ¬ c.Foreign (c.sourceUuid ++ ("-" ++ afterLast '-' n)) := own_iff.mpr ⟨_, rfl⟩
    refine foreign_ne_own hfn hown (hinj n hn _ hmem ?_)
    rw [newName_foreign hfn, newName_once honce, String.append_assoc]
  foreign_new n hn hfn := newName_foreign hfn ▸ hnew n hn
  own_new rest hn honce := newName_once honce ▸ hnew _ hn
  twice rest hn _ := by
    have hown : ¬ c.Foreign (c.sourceUuid ++ rest) := own_iff.mpr ⟨rest, rfl⟩
    rw [← newName_own hown]
    refine ⟨hnew _ hn, fun m hm hfm heq => ?_, fun m hm hfm heq => hinj m hm _ hn ?_⟩
    · exact foreign_ne_own hfm hown (hinj m hm _ hn (by rw [newName_foreign hfm, heq]))
    · rw [newName_own hfm, heq]

end Separable

/-- Names as the platform gives them: the uuid of the source in front and nowhere
else, and that of the clone in none of them. -/
theorem separable_of_own
    (hown : ∀ n ∈ names, ∃ rest, n = c.sourceUuid ++ rest ∧ ¬ strContains rest c.sourceUuid)
    (hnew : ∀ n ∈ names, ¬ strStartsWith n c.newUuid) : c.Separable names := by
  have hnone : ∀ n ∈ names, ¬ c.Foreign n := fun n hn => by
    obtain ⟨rest, hrest, -⟩ := hown n hn
    exact own_iff.mpr ⟨rest, hrest⟩
  have hfront : ∀ text, c.newUuid ++ text ∉ names := fun text hmem => by
    refine hnew _ hmem (strStartsWith_iff.mpr ⟨text.toList, ?_⟩)
    rw [String.toList_append]
  exact {
    foreign := fun n hn _ _ hfn => absurd hfn (hnone n hn)
    foreign_own := fun n hn hfn => absurd hfn (hnone n hn)
    foreign_new := fun n hn hfn => absurd hfn (hnone n hn)
    own_new := fun rest _ _ => hfront rest
    twice := fun rest hmem htwice => by
      obtain ⟨rest', heq, honce⟩ := hown _ hmem
      rw [(String.append_right_inj _).mp heq] at htwice
      exact absurd htwice honce }

/-! ## Two databases of one application -/

def freshClone : Cloning := ⟨"k3f9x2", "p7d1q8", 2, by decide +kernel⟩

def volumeNamed (name mountPath : String) : PersistentVolume := ⟨name, mountPath, none, 1⟩

/-- Volumes named after the application. -/
def ownVolumes : List PersistentVolume :=
  [volumeNamed "k3f9x2-data" "/data", volumeNamed "k3f9x2-config" "/config"]

/-- Volumes with names of their own. -/
def foreignVolumes : List PersistentVolume :=
  [volumeNamed "postgres-data" "/var/lib/postgresql/data", volumeNamed "redis-data" "/data"]

end Cloning

end OnePloy
