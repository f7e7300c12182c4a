import Mathlib.Data.List.Basic
import Mathlib.Data.List.Nodup

/-!
# Maps that keep the order of their keys

The arrays of scripting languages: a map with an order, in which a value that is
set takes the place of the one under its key, or the last place. No key occurs
twice, which is a field. Two maps that hold the same values under the same keys
are `Same` in whatever order.
-/

structure OrderedMap (κ α : Type*) where
  entries : List (κ × α)
  nodup : (entries.map Prod.fst).Nodup

namespace OrderedMap

variable {κ α β : Type*}

theorem ext_entries {m m' : OrderedMap κ α} (h : m.entries = m'.entries) : m = m' := by
  cases m
  cases m'
  cases h
  rfl

def empty : OrderedMap κ α := ⟨[], .nil⟩

def keys (m : OrderedMap κ α) : List κ := m.entries.map Prod.fst

theorem mem_keys {m : OrderedMap κ α} {k : κ} : k ∈ m.keys ↔ ∃ a, (k, a) ∈ m.entries := by
  simp [keys]

/-- Only one value stands under a key. -/
theorem value_unique {m : OrderedMap κ α} {k : κ} {a b : α} (ha : (k, a) ∈ m.entries)
    (hb : (k, b) ∈ m.entries) : a = b := by
  have heq := List.inj_on_of_nodup_map m.nodup ha hb rfl
  exact (Prod.mk.inj heq).2

def filter (p : κ → α → Bool) (m : OrderedMap κ α) : OrderedMap κ α where
  entries := m.entries.filter fun e => p e.1 e.2
  nodup := m.nodup.sublist (List.filter_sublist.map _)

def mapValues (f : α → β) (m : OrderedMap κ α) : OrderedMap κ β where
  entries := m.entries.map fun e => (e.1, f e.2)
  nodup := by simpa [Function.comp_def] using m.nodup

section Keyed

variable [DecidableEq κ]

def get? (m : OrderedMap κ α) (k : κ) : Option α :=
  (m.entries.find? fun e => e.1 = k).map Prod.snd

def setEntries (k : κ) (a : α) : List (κ × α) → List (κ × α)
  | [] => [(k, a)]
  | e :: es => if e.1 = k then (k, a) :: es else e :: setEntries k a es

theorem map_fst_setEntries (k : κ) (a : α) (l : List (κ × α)) :
    (setEntries k a l).map Prod.fst =
      if k ∈ l.map Prod.fst then l.map Prod.fst else l.map Prod.fst ++ [k] := by
  induction l with
  | nil => rfl
  | cons e l ih =>
      rw [setEntries]
      by_cases he : e.1 = k
      · simp [he]
      · rw [if_neg he, List.map_cons, ih, List.map_cons]
        by_cases hk : k ∈ l.map Prod.fst
        · rw [if_pos hk, if_pos (List.mem_cons_of_mem _ hk)]
        · rw [if_neg hk, if_neg (by simpa [Ne.symm he] using hk), List.cons_append]

/-- `$m[k] = a`. -/
def set (m : OrderedMap κ α) (k : κ) (a : α) : OrderedMap κ α where
  entries := setEntries k a m.entries
  nodup := by
    rw [map_fst_setEntries]
    split
    · exact m.nodup
    · next hk =>
        rw [List.nodup_append]
        refine ⟨m.nodup, List.nodup_singleton k, fun k' hk' l hl => ?_⟩
        rw [List.mem_singleton.mp hl]
        rintro rfl
        exact hk hk'

theorem get?_eq_some_iff {m : OrderedMap κ α} {k : κ} {a : α} :
    m.get? k = some a ↔ (k, a) ∈ m.entries := by
  rw [get?, Option.map_eq_some_iff]
  constructor
  · rintro ⟨e, hfind, rfl⟩
    have hkey : e.1 = k := by simpa using List.find?_some hfind
    exact hkey ▸ List.mem_of_find?_eq_some hfind
  · intro h
    cases hfind : m.entries.find? fun e => e.1 = k with
    | none => exact absurd (List.find?_eq_none.mp hfind (k, a) h) (by simp)
    | some e =>
        have hkey : e.1 = k := by simpa using List.find?_some hfind
        exact ⟨e, rfl, value_unique (hkey ▸ List.mem_of_find?_eq_some hfind) h⟩

theorem get?_eq_none_iff {m : OrderedMap κ α} {k : κ} : m.get? k = none ↔ k ∉ m.keys := by
  rw [mem_keys, Option.eq_none_iff_forall_ne_some]
  simp only [ne_eq, get?_eq_some_iff, not_exists]

theorem mem_setEntries {k : κ} {a : α} {l : List (κ × α)} {e : κ × α}
    (hnodup : (l.map Prod.fst).Nodup) :
    e ∈ setEntries k a l ↔ e = (k, a) ∨ (e ∈ l ∧ e.1 ≠ k) := by
  induction l with
  | nil => simp [setEntries]
  | cons f l ih =>
      rw [List.map_cons, List.nodup_cons] at hnodup
      have ih' := ih hnodup.2
      have hf : e ∈ l → e.1 ≠ f.1 := by
        rintro he heq
        exact hnodup.1 (heq ▸ List.mem_map_of_mem he)
      rw [setEntries]
      split
      · next hkey =>
          rw [List.mem_cons, List.mem_cons]
          constructor
          · rintro (rfl | he)
            · exact .inl rfl
            · exact .inr ⟨.inr he, hkey ▸ hf he⟩
          · rintro (rfl | ⟨rfl | he, hne⟩)
            · exact .inl rfl
            · exact absurd hkey hne
            · exact .inr he
      · next hkey =>
          rw [List.mem_cons, List.mem_cons, ih']
          constructor
          · rintro (rfl | rfl | ⟨he, hne⟩)
            · exact .inr ⟨.inl rfl, hkey⟩
            · exact .inl rfl
            · exact .inr ⟨.inr he, hne⟩
          · rintro (rfl | ⟨rfl | he, hne⟩)
            · exact .inr (.inl rfl)
            · exact .inl rfl
            · exact .inr (.inr ⟨he, hne⟩)

/-- Setting happens in the part of a map that the key belongs to. -/
theorem filter_setEntries (p : κ → Bool) (k : κ) (a : α) (l : List (κ × α)) :
    (setEntries k a l).filter (fun e => p e.1) =
      if p k then setEntries k a (l.filter fun e => p e.1) else l.filter fun e => p e.1 := by
  induction l with
  | nil => cases hp : p k <;> simp [setEntries, hp]
  | cons e l ih =>
      rw [setEntries]
      by_cases he : e.1 = k
      · cases hp : p k <;> simp [he, hp, setEntries]
      · rw [if_neg he, List.filter_cons, ih, List.filter_cons]
        cases hp : p k <;> cases hpe : p e.1 <;> simp [setEntries, he]

theorem map_setEntries (f : α → β) (k : κ) (a : α) (l : List (κ × α)) :
    (setEntries k a l).map (fun e => (e.1, f e.2)) =
      setEntries k (f a) (l.map fun e => (e.1, f e.2)) := by
  induction l with
  | nil => rfl
  | cons e l ih =>
      rw [setEntries, List.map_cons, setEntries]
      by_cases he : e.1 = k
      · rw [if_pos he, if_pos he, List.map_cons]
      · rw [if_neg he, if_neg he, List.map_cons, ih]

/-- What is set stands where the key stood, or at the end. -/
theorem setEntries_eq (k : κ) (a : α) (l : List (κ × α)) :
    setEntries k a l =
      l.takeWhile (fun e => e.1 ≠ k) ++ (k, a) :: (l.dropWhile fun e => e.1 ≠ k).tail := by
  induction l with
  | nil => rfl
  | cons e l ih =>
      rw [setEntries]
      by_cases he : e.1 = k
      · simp [he]
      · simp [he, ih]

theorem setEntries_of_notMem {k : κ} {a : α} {l : List (κ × α)} (h : k ∉ l.map Prod.fst) :
    setEntries k a l = l ++ [(k, a)] := by
  induction l with
  | nil => rfl
  | cons e l ih =>
      rw [List.map_cons, List.mem_cons, not_or] at h
      rw [setEntries, if_neg (Ne.symm h.1), ih h.2, List.cons_append]

theorem setEntries_eq_singleton {k : κ} {a : α} {l : List (κ × α)}
    (hnodup : (l.map Prod.fst).Nodup) (honly : ∀ e ∈ l, e.1 = k) :
    setEntries k a l = [(k, a)] := by
  cases l with
  | nil => rfl
  | cons e l =>
      have he := honly e (List.mem_cons_self ..)
      cases l with
      | nil => rw [setEntries, if_pos he]
      | cons f l =>
          have hf := honly f (List.mem_cons_of_mem _ (List.mem_cons_self ..))
          simp [he, hf] at hnodup

theorem mem_set {m : OrderedMap κ α} {k : κ} {a : α} {e : κ × α} :
    e ∈ (m.set k a).entries ↔ e = (k, a) ∨ (e ∈ m.entries ∧ e.1 ≠ k) :=
  mem_setEntries m.nodup

@[simp] theorem get?_set_self (m : OrderedMap κ α) (k : κ) (a : α) : (m.set k a).get? k = some a :=
  get?_eq_some_iff.mpr (mem_set.mpr (.inl rfl))

theorem get?_set_ne (m : OrderedMap κ α) {k k' : κ} (a : α) (h : k' ≠ k) :
    (m.set k a).get? k' = m.get? k' := by
  ext b
  rw [get?_eq_some_iff, get?_eq_some_iff, mem_set]
  simp [h]

theorem get?_set (m : OrderedMap κ α) (k k' : κ) (a : α) :
    (m.set k a).get? k' = if k' = k then some a else m.get? k' := by
  split
  · next h => rw [h, get?_set_self]
  · next h => exact get?_set_ne m a h

theorem mem_keys_set {m : OrderedMap κ α} {k k' : κ} {a : α} :
    k' ∈ (m.set k a).keys ↔ k' = k ∨ k' ∈ m.keys := by
  rw [keys, set, map_fst_setEntries]
  split
  · next hk => exact ⟨.inr, fun h => h.elim (fun heq => heq ▸ hk) id⟩
  · rw [List.mem_append, List.mem_singleton, or_comm]
    rfl

def erase (m : OrderedMap κ α) (k : κ) : OrderedMap κ α := m.filter fun k' _ => decide (k' ≠ k)

theorem get?_erase (m : OrderedMap κ α) (k k' : κ) :
    (m.erase k).get? k' = if k' = k then none else m.get? k' := by
  ext a
  rw [get?_eq_some_iff, erase, filter, List.mem_filter]
  split
  · next h => simp [h]
  · next h => simp [h, get?_eq_some_iff]

theorem filter_key (m : OrderedMap κ α) (k : κ) :
    m.entries.filter (fun e => e.1 = k) = ((m.get? k).map fun a => (k, a)).toList := by
  obtain ⟨l, hnodup⟩ := m
  simp only [get?]
  induction l with
  | nil => rfl
  | cons e l ih =>
      rw [List.map_cons, List.nodup_cons] at hnodup
      have ih' := ih hnodup.2
      by_cases he : e.1 = k
      · have hnone : (l.filter fun e => e.1 = k) = [] := by
          rw [List.filter_eq_nil_iff]
          intro f hf hkey
          have hfk : f.1 = k := by simpa using hkey
          exact hnodup.1 (he ▸ hfk ▸ List.mem_map_of_mem hf)
        subst he
        simp [hnone]
      · simpa [he] using ih'

/-! ## The same values under the same keys -/

def Same (m m' : OrderedMap κ α) : Prop := ∀ k, m.get? k = m'.get? k

theorem Same.symm {m m' : OrderedMap κ α} (h : m.Same m') : m'.Same m := fun k => (h k).symm

theorem Same.trans {m m' m'' : OrderedMap κ α} (h : m.Same m') (h' : m'.Same m'') : m.Same m'' :=
  fun k => (h k).trans (h' k)

theorem same_of_perm {m m' : OrderedMap κ α} (h : m.entries.Perm m'.entries) : m.Same m' := by
  intro k
  ext a
  rw [get?_eq_some_iff, get?_eq_some_iff, h.mem_iff]

/-! ## Merging -/

/-- `array_merge`, where the keys are texts: what comes later wins. -/
def merge (m m' : OrderedMap κ α) : OrderedMap κ α :=
  m'.entries.foldl (fun merged e => merged.set e.1 e.2) m

theorem get?_foldl_set (l : List (κ × α)) (hnodup : (l.map Prod.fst).Nodup)
    (m : OrderedMap κ α) (k : κ) :
    (l.foldl (fun merged e => merged.set e.1 e.2) m).get? k =
      ((l.find? fun e => e.1 = k).map Prod.snd).or (m.get? k) := by
  induction l generalizing m with
  | nil => rfl
  | cons e l ih =>
      rw [List.map_cons, List.nodup_cons] at hnodup
      rw [List.foldl_cons, ih hnodup.2, List.find?_cons]
      by_cases he : e.1 = k
      · have hnone : (l.find? fun e => e.1 = k) = none := by
          rw [List.find?_eq_none]
          intro f hf hkey
          have hfk : f.1 = k := by simpa using hkey
          exact hnodup.1 (he ▸ hfk ▸ List.mem_map_of_mem hf)
        rw [hnone, ← he]
        simp
      · rw [get?_set_ne _ _ (Ne.symm he)]
        simp [he]

/-- New keys, each of which is set once, come behind the old ones. -/
theorem entries_foldl_set {l : List (κ × α)} {m : OrderedMap κ α}
    (hnodup : ((m.entries ++ l).map Prod.fst).Nodup) :
    (l.foldl (fun m e => m.set e.1 e.2) m).entries = m.entries ++ l := by
  induction l generalizing m with
  | nil => rw [List.append_nil]; rfl
  | cons e l ih =>
      have hset : (m.set e.1 e.2).entries = m.entries ++ [e] := by
        refine setEntries_of_notMem fun hmem => ?_
        rw [List.map_append, List.map_cons, List.nodup_append] at hnodup
        exact hnodup.2.2 e.1 hmem e.1 (List.mem_cons_self ..) rfl
      rw [List.foldl_cons, ih, hset, List.append_assoc, List.singleton_append]
      rwa [hset, List.append_assoc, List.singleton_append]

theorem get?_mapValues (f : α → β) (m : OrderedMap κ α) (k : κ) :
    (m.mapValues f).get? k = (m.get? k).map f := by
  rw [get?, get?, mapValues, List.find?_map, Option.map_map, Option.map_map]
  rfl

/-- The entries are the keys with their values. -/
theorem get?_merge (m m' : OrderedMap κ α) (k : κ) :
    (m.merge m').get? k = (m'.get? k).or (m.get? k) :=
  get?_foldl_set m'.entries m'.nodup m k

end Keyed

end OrderedMap
