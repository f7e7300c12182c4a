import OnePloy.Lib.OrderedMap
import Mathlib.Data.List.Sort

/-!
# Comparing keyed maps

Two maps are compared key by key, in the order of the keys. What is reported
depends on the two values under a key and on nothing else: not on the order in
which either map holds its entries. Sorted by their keys, two maps with the same
values under the same keys have the same entries.
-/

namespace OrderedMap

variable {κ α β γ : Type*}

section Sorted

variable [LinearOrder κ]

/-- The keys of both maps, in order. -/
def allKeys (m : OrderedMap κ α) (m' : OrderedMap κ β) : List κ :=
  (m.keys ++ m'.keys.filter fun k => k ∉ m.keys).insertionSort (· ≤ ·)

/-- What `report` says of each key. -/
def compare (report : κ → Option α → Option β → Option γ) (m : OrderedMap κ α)
    (m' : OrderedMap κ β) : List γ :=
  (m.allKeys m').filterMap fun k => report k (m.get? k) (m'.get? k)

def sortKeys (m : OrderedMap κ α) : List (κ × α) :=
  m.entries.insertionSort fun e e' => e.1 ≤ e'.1

variable {m n : OrderedMap κ α} {m' n' : OrderedMap κ β}
  {report : κ → Option α → Option β → Option γ}

theorem mem_allKeys {k : κ} : k ∈ m.allKeys m' ↔ k ∈ m.keys ∨ k ∈ m'.keys := by
  rw [allKeys, List.mem_insertionSort, List.mem_append, List.mem_filter]
  by_cases hk : k ∈ m.keys <;> simp [hk]

theorem nodup_allKeys : (m.allKeys m').Nodup := by
  rw [allKeys, (List.perm_insertionSort ..).nodup_iff, List.nodup_append]
  refine ⟨m.nodup, m'.nodup.filter _, ?_⟩
  rintro k hk l hl rfl
  exact of_decide_eq_true (List.mem_filter.mp hl).2 hk

theorem keys_eq_iff (h : m.Same n) (k : κ) : k ∈ m.keys ↔ k ∈ n.keys := by
  rw [← not_iff_not, ← get?_eq_none_iff, ← get?_eq_none_iff, h k]

theorem allKeys_congr (h : ∀ k, k ∈ m.keys ∨ k ∈ m'.keys ↔ k ∈ n.keys ∨ k ∈ n'.keys) :
    m.allKeys m' = n.allKeys n' := by
  have hperm : (m.allKeys m').Perm (n.allKeys n') :=
    (List.perm_ext_iff_of_nodup nodup_allKeys nodup_allKeys).mpr fun k => by
      rw [mem_allKeys, mem_allKeys, h k]
  exact hperm.eq_of_pairwise' (List.pairwise_insertionSort ..) (List.pairwise_insertionSort ..)

/-- Only what is reported of each key matters. -/
theorem compare_congr {α' β' : Type*} {p : OrderedMap κ α'} {p' : OrderedMap κ β'}
    {report' : κ → Option α' → Option β' → Option γ}
    (hkeys : m.allKeys m' = p.allKeys p')
    (h : ∀ k ∈ m.allKeys m', report k (m.get? k) (m'.get? k) = report' k (p.get? k) (p'.get? k)) :
    m.compare report m' = p.compare report' p' := by
  rw [compare, compare, ← hkeys]
  exact List.filterMap_congr h

/-- The order of the entries does not matter. -/
theorem compare_same (h : m.Same n) (h' : m'.Same n') :
    m.compare report m' = n.compare report n' := by
  refine compare_congr (allKeys_congr fun k => ?_) fun k _ => by rw [h k, h' k]
  rw [keys_eq_iff h, keys_eq_iff h']

theorem mem_compare {c : γ} :
    c ∈ m.compare report m' ↔
      ∃ k, (k ∈ m.keys ∨ k ∈ m'.keys) ∧ report k (m.get? k) (m'.get? k) = some c := by
  rw [compare, List.mem_filterMap]
  exact exists_congr fun k => and_congr_left' mem_allKeys

theorem compare_eq_nil :
    m.compare report m' = [] ↔
      ∀ k, k ∈ m.keys ∨ k ∈ m'.keys → report k (m.get? k) (m'.get? k) = none := by
  rw [compare, List.filterMap_eq_nil_iff]
  exact forall_congr' fun k => imp_congr_left mem_allKeys

theorem pairwise_sortKeys (m : OrderedMap κ α) :
    m.sortKeys.Pairwise fun e e' => e.1 ≤ e'.1 := by
  have : IsTrans (κ × α) fun e e' => e.1 ≤ e'.1 := ⟨fun _ _ _ => le_trans⟩
  have : Std.Total fun e e' : κ × α => e.1 ≤ e'.1 := ⟨fun e e' => le_total e.1 e'.1⟩
  exact List.pairwise_insertionSort _ _

/-- Sorting by the keys forgets the order of the entries, and nothing else. -/
theorem sortKeys_eq_iff : m.sortKeys = n.sortKeys ↔ m.Same n := by
  constructor
  · intro h
    refine same_of_perm ?_
    have hm := List.perm_insertionSort (fun e e' : κ × α => e.1 ≤ e'.1) m.entries
    have hn := List.perm_insertionSort (fun e e' : κ × α => e.1 ≤ e'.1) n.entries
    exact hm.symm.trans ((List.Perm.of_eq h).trans hn)
  · intro h
    have hentries : m.entries.Perm n.entries := by
      refine (List.perm_ext_iff_of_nodup m.nodup.of_map n.nodup.of_map).mpr fun e => ?_
      rw [← get?_eq_some_iff, ← get?_eq_some_iff, h e.1]
    have hperm : m.sortKeys.Perm n.sortKeys :=
      (List.perm_insertionSort ..).trans (hentries.trans (List.perm_insertionSort ..).symm)
    refine hperm.eq_of_pairwise (fun e e' he he' hle hge => ?_) (pairwise_sortKeys m)
      (pairwise_sortKeys n)
    have hin : e ∈ m.entries := (List.mem_insertionSort _).mp he
    have hin' : e' ∈ n.entries := (List.mem_insertionSort _).mp he'
    have hkey : e.1 = e'.1 := le_antisymm hle hge
    have hvalue : e.2 = e'.2 := value_unique hin (hkey ▸ hentries.mem_iff.mpr hin')
    exact Prod.ext hkey hvalue

end Sorted

end OrderedMap
