import Mathlib.Algebra.Order.BigOperators.Group.List
import Mathlib.Algebra.Order.Group.Nat
import Mathlib.Data.List.Find
import Mathlib.Data.List.Nodup
import Mathlib.Tactic.Abel

/-!
# Tables with generated keys

A table is a list of rows in increasing order of their keys, all of them below
the next key the table will hand out; both facts are fields, so a table with a
repeated key cannot be built. The operations are those of a relational store:
`insert` under the next key, `updateWhere`, `deleteWhere`, lookup by key
(`get?`) or by condition (`first?`, `select`), and aggregation (`sumWhere`).

A row is denoted by its key, so `get?` determines a table for every purpose
here: each operation has its `get?` equation, and each aggregate its equation
or bound.
-/

namespace Conc

universe u v

structure Table (ρ : Type u) where
  rows : List (Nat × ρ)
  nextId : Nat
  sorted : (rows.map Prod.fst).Pairwise (· < ·)
  below : ∀ p ∈ rows, p.1 < nextId

namespace Table

variable {ρ : Type u}

/-! ## Operations -/

/-- The empty table; keys are handed out from 1. -/
def empty : Table ρ := ⟨[], 1, .nil, by simp⟩

instance : Inhabited (Table ρ) := ⟨empty⟩

/-- The row under key `id`. -/
def get? (t : Table ρ) (id : Nat) : Option ρ := t.rows.lookup id

/-- The first row that satisfies `p`, with its key. -/
def first? (t : Table ρ) (p : Nat → ρ → Bool) : Option (Nat × ρ) :=
  t.rows.find? fun q => p q.1 q.2

/-- All rows that satisfy `p`, with their keys, in key order. -/
def select (t : Table ρ) (p : Nat → ρ → Bool) : List (Nat × ρ) :=
  t.rows.filter fun q => p q.1 q.2

def insert (t : Table ρ) (r : ρ) : Table ρ where
  rows := t.rows ++ [(t.nextId, r)]
  nextId := t.nextId + 1
  sorted := by
    rw [List.map_append, List.pairwise_append]
    refine ⟨t.sorted, List.pairwise_singleton .., ?_⟩
    intro a ha b hb
    obtain ⟨q, hq, rfl⟩ := List.mem_map.mp ha
    obtain rfl := List.mem_singleton.mp hb
    exact t.below q hq
  below := by
    intro q hq
    rcases List.mem_append.mp hq with h | h
    · exact Nat.lt_succ_of_lt (t.below q h)
    · obtain rfl := List.mem_singleton.mp h
      exact Nat.lt_succ_self _

/-- Rewrite every row that satisfies `p`. -/
def updateWhere (t : Table ρ) (p : Nat → ρ → Bool) (f : ρ → ρ) : Table ρ where
  rows := t.rows.map fun q => (q.1, if p q.1 q.2 then f q.2 else q.2)
  nextId := t.nextId
  sorted := by
    have h : (Prod.fst ∘ fun q : Nat × ρ => (q.1, if p q.1 q.2 then f q.2 else q.2))
        = Prod.fst := rfl
    rw [List.map_map, h]
    exact t.sorted
  below := by
    intro q hq
    obtain ⟨q', hq', rfl⟩ := List.mem_map.mp hq
    exact t.below q' hq'

/-- Rewrite the row under key `id`. -/
def modify (t : Table ρ) (id : Nat) (f : ρ → ρ) : Table ρ :=
  t.updateWhere (fun i _ => i == id) f

def deleteWhere (t : Table ρ) (p : Nat → ρ → Bool) : Table ρ where
  rows := t.rows.filter fun q => !p q.1 q.2
  nextId := t.nextId
  sorted := t.sorted.sublist (List.filter_sublist.map Prod.fst)
  below := fun q hq => t.below q (List.mem_filter.mp hq).1

/-- The number of rows that satisfy `p`. -/
def countWhere (t : Table ρ) (p : Nat → ρ → Bool) : Nat := (t.select p).length

/-- The aggregate of `f` over the rows that satisfy `p`. -/
def sumWhere {M : Type v} [AddCommMonoid M] (t : Table ρ) (p : Nat → ρ → Bool)
    (f : ρ → M) : M :=
  ((t.select p).map fun q => f q.2).sum

/-! ## Rows and keys -/

theorem nodup (t : Table ρ) : (t.rows.map Prod.fst).Nodup :=
  t.sorted.imp fun h => Nat.ne_of_lt h

theorem mem_rows {t : Table ρ} {i : Nat} {r : ρ} :
    (i, r) ∈ t.rows ↔ t.get? i = some r := by
  rw [get?, List.lookup_eq_some_iff]
  constructor
  · intro h
    obtain ⟨l₁, l₂, hl⟩ := List.append_of_mem h
    refine ⟨l₁, l₂, hl, fun q hq => ?_⟩
    have hnd := t.nodup
    rw [hl, List.map_append, List.map_cons, List.nodup_append] at hnd
    have hne : q.1 ≠ i :=
      hnd.2.2 q.1 (List.mem_map_of_mem hq) i (List.mem_cons_self ..)
    simpa using Ne.symm hne
  · rintro ⟨l₁, l₂, hl, -⟩
    rw [hl]
    exact List.mem_append_right _ (List.mem_cons_self ..)

theorem get?_none {t : Table ρ} {i : Nat} :
    t.get? i = none ↔ ∀ r, (i, r) ∉ t.rows := by
  constructor
  · intro h r hr
    rw [mem_rows.mp hr] at h
    cases h
  · intro h
    cases hg : t.get? i with
    | none => rfl
    | some r => exact absurd (mem_rows.mpr hg) (h r)

theorem get?_lt {t : Table ρ} {i : Nat} {r : ρ} (h : t.get? i = some r) :
    i < t.nextId :=
  t.below _ (mem_rows.mpr h)

@[simp] theorem get?_nextId (t : Table ρ) : t.get? t.nextId = none :=
  get?_none.mpr fun _ hr => Nat.lt_irrefl _ (t.below _ hr)

/-- Tables agree where they have the same rows: the equations below are all
proved through membership. -/
theorem get?_eq_of_mem_iff {t t' : Table ρ} {i j : Nat}
    (h : ∀ r, (i, r) ∈ t.rows ↔ (j, r) ∈ t'.rows) : t.get? i = t'.get? j := by
  cases hg : t'.get? j with
  | some r => exact mem_rows.mp ((h r).mpr (mem_rows.mpr hg))
  | none => exact get?_none.mpr fun r hr => get?_none.mp hg r ((h r).mp hr)

@[simp] theorem get?_empty (i : Nat) : (empty : Table ρ).get? i = none := rfl

theorem get?_insert (t : Table ρ) (r : ρ) (i : Nat) :
    (t.insert r).get? i = if i = t.nextId then some r else t.get? i := by
  split
  · next h =>
      subst h
      exact mem_rows.mp (List.mem_append_right _ (List.mem_singleton.mpr rfl))
  · next h =>
      refine get?_eq_of_mem_iff fun r' => ?_
      simp [insert, h]

@[simp] theorem get?_insert_self (t : Table ρ) (r : ρ) :
    (t.insert r).get? t.nextId = some r := by
  rw [get?_insert, if_pos rfl]

theorem get?_insert_of_some {t : Table ρ} {i : Nat} {r : ρ} (r' : ρ)
    (h : t.get? i = some r) : (t.insert r').get? i = some r := by
  rw [get?_insert, if_neg (Nat.ne_of_lt (get?_lt h)), h]

@[simp] theorem insert_nextId (t : Table ρ) (r : ρ) :
    (t.insert r).nextId = t.nextId + 1 := rfl

theorem get?_updateWhere (t : Table ρ) (p : Nat → ρ → Bool) (f : ρ → ρ)
    (i : Nat) :
    (t.updateWhere p f).get? i
      = (t.get? i).map fun r => if p i r then f r else r := by
  cases hg : t.get? i with
  | some r =>
      refine mem_rows.mp (List.mem_map.mpr ⟨(i, r), mem_rows.mpr hg, rfl⟩)
  | none =>
      refine get?_none.mpr fun _ hr => ?_
      obtain ⟨⟨j, r'⟩, hmem, heq⟩ := List.mem_map.mp hr
      obtain rfl : j = i := congrArg Prod.fst heq
      exact get?_none.mp hg r' hmem

@[simp] theorem updateWhere_nextId (t : Table ρ) (p : Nat → ρ → Bool)
    (f : ρ → ρ) : (t.updateWhere p f).nextId = t.nextId := rfl

theorem get?_modify (t : Table ρ) (id : Nat) (f : ρ → ρ) (i : Nat) :
    (t.modify id f).get? i = if i = id then (t.get? i).map f else t.get? i := by
  rw [modify, get?_updateWhere]
  by_cases h : i = id
  · simp [h]
  · simp [h]

theorem get?_modify_map (t : Table ρ) (id : Nat) (f : ρ → ρ) (i : Nat) :
    (t.modify id f).get? i = (t.get? i).map fun r => if i = id then f r else r := by
  rw [get?_modify]
  split
  · rfl
  · rw [Option.map_id']

@[simp] theorem modify_nextId (t : Table ρ) (id : Nat) (f : ρ → ρ) :
    (t.modify id f).nextId = t.nextId := rfl

/-- A row of the new table and the row it was. -/
theorem get?_modify_some {t : Table ρ} {id i : Nat} {f : ρ → ρ} {r' : ρ} :
    (t.modify id f).get? i = some r' ↔
      ∃ r, t.get? i = some r ∧ r' = if i = id then f r else r := by
  rw [get?_modify_map, Option.map_eq_some_iff]
  exact exists_congr fun r => and_congr_right fun _ => eq_comm

theorem get?_modify_of_some {t : Table ρ} {i : Nat} {r : ρ} (id : Nat) (f : ρ → ρ)
    (h : t.get? i = some r) :
    (t.modify id f).get? i = some (if i = id then f r else r) :=
  get?_modify_some.mpr ⟨r, h, rfl⟩

theorem get?_modify_self {t : Table ρ} {id : Nat} {r : ρ} (f : ρ → ρ)
    (h : t.get? id = some r) : (t.modify id f).get? id = some (f r) := by
  rw [get?_modify, if_pos rfl, h, Option.map_some]

theorem get?_modify_ne {t : Table ρ} {id i : Nat} (f : ρ → ρ) (h : i ≠ id) :
    (t.modify id f).get? i = t.get? i := by
  rw [get?_modify, if_neg h]

theorem get?_deleteWhere {t : Table ρ} {p : Nat → ρ → Bool} {i : Nat} {r : ρ} :
    (t.deleteWhere p).get? i = some r ↔ t.get? i = some r ∧ p i r = false := by
  rw [← mem_rows, ← mem_rows]
  simp [deleteWhere]

@[simp] theorem deleteWhere_nextId (t : Table ρ) (p : Nat → ρ → Bool) :
    (t.deleteWhere p).nextId = t.nextId := rfl

/-- The row under a key stands between rows under other keys, and rewriting it
leaves those alone. -/
theorem modify_rows {t : Table ρ} {id : Nat} {r : ρ} (g : ρ → ρ) (hr : t.get? id = some r) :
    ∃ l₁ l₂, t.rows = l₁ ++ (id, r) :: l₂ ∧
      (t.modify id g).rows = l₁ ++ (id, g r) :: l₂ := by
  obtain ⟨l₁, l₂, hl⟩ := List.append_of_mem (mem_rows.mpr hr)
  refine ⟨l₁, l₂, hl, ?_⟩
  have hnd := t.nodup
  rw [hl, List.map_append, List.map_cons, List.nodup_append, List.nodup_cons] at hnd
  obtain ⟨-, ⟨hl₂, -⟩, hl₁⟩ := hnd
  have hkeep : ∀ l : List (Nat × ρ), (∀ q ∈ l, q.1 ≠ id) →
      l.map (fun q => (q.1, if q.1 == id then g q.2 else q.2)) = l := by
    intro l h
    refine (List.map_congr_left fun q hq => ?_).trans (List.map_id l)
    simp [h q hq]
  have h₁ : ∀ q ∈ l₁, q.1 ≠ id := fun q hq =>
    hl₁ q.1 (List.mem_map_of_mem hq) id (List.mem_cons_self ..)
  have h₂ : ∀ q ∈ l₂, q.1 ≠ id := fun q hq heq => hl₂ (List.mem_map.mpr ⟨q, hq, heq⟩)
  simp only [modify, updateWhere, hl, List.map_append, List.map_cons, hkeep l₁ h₁, hkeep l₂ h₂]
  simp

/-! ## Lookup by condition -/

theorem first?_some {t : Table ρ} {p : Nat → ρ → Bool} {q : Nat × ρ}
    (h : t.first? p = some q) : t.get? q.1 = some q.2 ∧ p q.1 q.2 = true :=
  ⟨mem_rows.mp (List.mem_of_find?_eq_some h),
    List.find?_some (p := fun q : Nat × ρ => p q.1 q.2) h⟩

theorem first?_none {t : Table ρ} {p : Nat → ρ → Bool} (h : t.first? p = none)
    {i : Nat} {r : ρ} (hg : t.get? i = some r) : p i r = false := by
  have := List.find?_eq_none.mp h (i, r) (mem_rows.mpr hg)
  simpa using this

theorem exists_first? {t : Table ρ} {p : Nat → ρ → Bool} {i : Nat} {r : ρ}
    (hg : t.get? i = some r) (hp : p i r = true) :
    ∃ q, t.first? p = some q := by
  cases hf : t.first? p with
  | some q => exact ⟨q, rfl⟩
  | none => rw [first?_none hf hg] at hp; cases hp

theorem first?_insert (t : Table ρ) (r : ρ) (p : Nat → ρ → Bool) :
    (t.insert r).first? p
      = (t.first? p).or (if p t.nextId r then some (t.nextId, r) else none) := by
  rw [first?, insert, List.find?_append, first?, List.find?_cons, List.find?_nil]
  cases p t.nextId r <;> rfl

/-- Rewriting rows in a way the condition does not see. -/
theorem first?_updateWhere {t : Table ρ} {p u : Nat → ρ → Bool} {f : ρ → ρ}
    (h : ∀ i r, p i (f r) = p i r) :
    (t.updateWhere u f).first? p
      = (t.first? p).map fun q => (q.1, if u q.1 q.2 then f q.2 else q.2) := by
  have hp : ((fun q : Nat × ρ => p q.1 q.2) ∘
      fun q : Nat × ρ => (q.1, if u q.1 q.2 then f q.2 else q.2)) = fun q => p q.1 q.2 := by
    funext q
    rw [Function.comp_apply]
    cases hu : u q.1 q.2 with
    | true => rw [if_pos rfl, h]
    | false => rw [if_neg Bool.false_ne_true]
  rw [first?, updateWhere, List.find?_map, hp, first?]

/-- Rewriting one row in a way the condition does not see. -/
theorem first?_modify {t : Table ρ} {p : Nat → ρ → Bool} {f : ρ → ρ} {id : Nat}
    (h : ∀ r, t.get? id = some r → p id (f r) = p id r) :
    (t.modify id f).first? p
      = (t.first? p).map fun q => (q.1, if q.1 == id then f q.2 else q.2) := by
  rw [first?, modify, updateWhere, List.find?_map, first?]
  refine congrArg (Option.map _) (List.find?_congr fun q hq => ?_)
  by_cases hi : q.1 = id
  · have hrow := h q.2 (hi ▸ mem_rows.mp hq)
    simp [hi, hrow]
  · simp [hi]

theorem mem_select {t : Table ρ} {p : Nat → ρ → Bool} {i : Nat} {r : ρ} :
    (i, r) ∈ t.select p ↔ t.get? i = some r ∧ p i r = true := by
  rw [select, List.mem_filter, mem_rows]

theorem select_nodup (t : Table ρ) (p : Nat → ρ → Bool) :
    ((t.select p).map Prod.fst).Nodup :=
  (List.filter_sublist.map Prod.fst).nodup t.nodup

/-- A unique index lists its values without repetition. -/
theorem select_map_nodup {κ : Type*} {t : Table ρ} {c : ρ → κ} (p : Nat → ρ → Bool)
    (h : ∀ i j r r', t.get? i = some r → t.get? j = some r' → c r = c r' → i = j) :
    ((t.select p).map fun q => c q.2).Nodup := by
  refine List.Nodup.map_on ?_ (List.Nodup.of_map _ (t.select_nodup p))
  rintro ⟨i, r⟩ hi ⟨j, r'⟩ hj hc
  have hgi := (mem_select.mp hi).1
  have hgj := (mem_select.mp hj).1
  obtain rfl := h i j r r' hgi hgj hc
  rw [Option.some.inj (hgi.symm.trans hgj)]

/-! ## Aggregates -/

section Sum

variable {M : Type v} [AddCommMonoid M]

/-- An aggregate as a sum over all rows, those outside `p` contributing
nothing. -/
theorem sumWhere_eq (t : Table ρ) (p : Nat → ρ → Bool) (f : ρ → M) :
    t.sumWhere p f
      = (t.rows.map fun q => if p q.1 q.2 then f q.2 else 0).sum := by
  rw [sumWhere, select]
  induction t.rows with
  | nil => rfl
  | cons q rest ih =>
      cases hp : p q.1 q.2 with
      | true => simp [hp, ih]
      | false => simp [hp, ih]

theorem sumWhere_insert (t : Table ρ) (r : ρ) (p : Nat → ρ → Bool)
    (f : ρ → M) :
    (t.insert r).sumWhere p f
      = t.sumWhere p f + if p t.nextId r then f r else 0 := by
  simp [sumWhere_eq, insert]

theorem sumWhere_congr {t : Table ρ} {p p' : Nat → ρ → Bool} {f : ρ → M}
    (h : ∀ i r, t.get? i = some r → p i r = p' i r) :
    t.sumWhere p f = t.sumWhere p' f := by
  rw [sumWhere_eq, sumWhere_eq]
  refine congrArg List.sum (List.map_congr_left fun q hq => ?_)
  rw [h q.1 q.2 (mem_rows.mp hq)]

/-- Rewriting one row moves an aggregate by that row's contribution. -/
theorem sumWhere_modify {t : Table ρ} {p : Nat → ρ → Bool} {f : ρ → M} {id : Nat} {r : ρ}
    (g : ρ → ρ) (hr : t.get? id = some r) :
    (t.modify id g).sumWhere p f + (if p id r then f r else 0)
      = t.sumWhere p f + if p id (g r) then f (g r) else 0 := by
  obtain ⟨l₁, l₂, hl, hmod⟩ := modify_rows g hr
  rw [sumWhere_eq, sumWhere_eq, hl, hmod]
  simp only [List.map_append, List.map_cons, List.sum_append, List.sum_cons]
  abel

theorem sumWhere_eq_zero {t : Table ρ} {p : Nat → ρ → Bool} {f : ρ → M}
    (h : ∀ i r, t.get? i = some r → p i r = false) : t.sumWhere p f = 0 := by
  have hnil : t.select p = [] := by
    refine List.filter_eq_nil_iff.mpr fun q hq => ?_
    rw [h q.1 q.2 (mem_rows.mp hq)]
    exact Bool.false_ne_true
  rw [sumWhere, hnil]
  rfl

variable [PartialOrder M] [IsOrderedAddMonoid M]

/-- Comparing two aggregates of one table row by row. -/
theorem sumWhere_le_sumWhere {t : Table ρ} {p p' : Nat → ρ → Bool}
    {f f' : ρ → M}
    (h : ∀ i r, t.get? i = some r →
      (if p i r then f r else 0) ≤ if p' i r then f' r else 0) :
    t.sumWhere p f ≤ t.sumWhere p' f' := by
  rw [sumWhere_eq, sumWhere_eq]
  exact List.sum_le_sum fun q hq => h q.1 q.2 (mem_rows.mp hq)

/-- An update that raises no row's contribution raises no aggregate. -/
theorem sumWhere_updateWhere_le {t : Table ρ} {p u : Nat → ρ → Bool}
    {f : ρ → M} {g : ρ → ρ}
    (h : ∀ i r, t.get? i = some r → u i r = true →
      (if p i (g r) then f (g r) else 0) ≤ if p i r then f r else 0) :
    (t.updateWhere u g).sumWhere p f ≤ t.sumWhere p f := by
  rw [sumWhere_eq, sumWhere_eq, updateWhere, List.map_map]
  refine List.sum_le_sum fun q hq => ?_
  simp only [Function.comp_apply]
  cases hu : u q.1 q.2 with
  | true => exact h q.1 q.2 (mem_rows.mp hq) hu
  | false => exact le_rfl

theorem sumWhere_modify_le {t : Table ρ} {p : Nat → ρ → Bool} {f : ρ → M}
    {g : ρ → ρ} {id : Nat}
    (h : ∀ r, t.get? id = some r →
      (if p id (g r) then f (g r) else 0) ≤ if p id r then f r else 0) :
    (t.modify id g).sumWhere p f ≤ t.sumWhere p f := by
  refine sumWhere_updateWhere_le fun i r hr hi => ?_
  obtain rfl : i = id := by simpa using hi
  exact h r hr

variable [CanonicallyOrderedAdd M]

/-- Weakening the condition of an aggregate. -/
theorem sumWhere_mono {t : Table ρ} {p p' : Nat → ρ → Bool} {f : ρ → M}
    (h : ∀ i r, t.get? i = some r → p i r = true → p' i r = true) :
    t.sumWhere p f ≤ t.sumWhere p' f := by
  refine sumWhere_le_sumWhere fun i r hr => ?_
  cases hp : p i r with
  | true => rw [h i r hr hp]
  | false => simp

/-- Keyed lists: if every entry of `A` (distinct keys) has an entry of `L`
under its key that weighs at least as much, then `L` outweighs `A`. -/
theorem sum_le_sum_of_keys {α β κ : Type*} {f : α → M} {g : β → M} (ka : α → κ)
    (kb : β → κ) : ∀ {A : List α} {L : List β}, (A.map ka).Nodup →
      (∀ a ∈ A, ∃ b ∈ L, kb b = ka a ∧ f a ≤ g b) →
      (A.map f).sum ≤ (L.map g).sum
  | [], _, _, _ => zero_le
  | a :: A, L, hnd, h => by
      classical
      rw [List.map_cons, List.nodup_cons] at hnd
      obtain ⟨b, hb, hkey, hle⟩ := h a (List.mem_cons_self ..)
      have hperm := List.perm_cons_erase hb
      rw [(hperm.map g).sum_eq]
      simp only [List.map_cons, List.sum_cons]
      refine add_le_add hle (sum_le_sum_of_keys ka kb hnd.2 fun c hc => ?_)
      obtain ⟨d, hd, hdkey, hcd⟩ := h c (List.mem_cons_of_mem _ hc)
      have hne : d ≠ b := by
        intro heq
        have hac : ka c = ka a := by rw [← hdkey, heq, hkey]
        exact hnd.1 (hac ▸ List.mem_map_of_mem hc)
      exact ⟨d, (List.mem_erase_of_ne hne).mpr hd, hdkey, hcd⟩

/-- An aggregate is bounded by any keyed list that covers its rows. -/
theorem sumWhere_le_of_cover {α : Type*} {t : Table ρ} {p : Nat → ρ → Bool}
    {f : ρ → M} {L : List (Nat × α)} {g : α → M}
    (h : ∀ i r, t.get? i = some r → p i r = true →
      ∃ a, (i, a) ∈ L ∧ f r ≤ g a) :
    t.sumWhere p f ≤ (L.map fun q => g q.2).sum :=
  sum_le_sum_of_keys Prod.fst Prod.fst (t.select_nodup p) fun q hq => by
    obtain ⟨a, ha, hle⟩ := h q.1 q.2 (mem_select.mp hq).1 (mem_select.mp hq).2
    exact ⟨_, ha, rfl, hle⟩

end Sum

/-! ## Counts -/

theorem countWhere_eq (t : Table ρ) (p : Nat → ρ → Bool) :
    t.countWhere p = t.sumWhere p fun _ => 1 := by
  simp [countWhere, sumWhere]

theorem countWhere_congr {t : Table ρ} {p p' : Nat → ρ → Bool}
    (h : ∀ i r, t.get? i = some r → p i r = p' i r) : t.countWhere p = t.countWhere p' := by
  rw [countWhere_eq, countWhere_eq, sumWhere_congr h]

theorem countWhere_insert (t : Table ρ) (r : ρ) (p : Nat → ρ → Bool) :
    (t.insert r).countWhere p = t.countWhere p + if p t.nextId r then 1 else 0 := by
  rw [countWhere_eq, countWhere_eq, sumWhere_insert]

theorem countWhere_mono {t : Table ρ} {p p' : Nat → ρ → Bool}
    (h : ∀ i r, t.get? i = some r → p i r = true → p' i r = true) :
    t.countWhere p ≤ t.countWhere p' := by
  rw [countWhere_eq, countWhere_eq]
  exact sumWhere_mono h

/-- An update that takes no row out of a condition. -/
theorem countWhere_le_updateWhere {t : Table ρ} {p u : Nat → ρ → Bool} {g : ρ → ρ}
    (h : ∀ i r, t.get? i = some r → p i r = true → u i r = true → p i (g r) = true) :
    t.countWhere p ≤ (t.updateWhere u g).countWhere p := by
  rw [countWhere_eq, countWhere_eq, sumWhere_eq, sumWhere_eq, updateWhere, List.map_map]
  refine List.sum_le_sum fun q hq => ?_
  rw [Function.comp_apply]
  cases hp : p q.1 q.2 with
  | false => exact Nat.zero_le _
  | true =>
      cases hu : u q.1 q.2 with
      | false => simp [hp]
      | true => simp [h q.1 q.2 (mem_rows.mp hq) hp hu]

theorem countWhere_deleteWhere_le (t : Table ρ) (p q : Nat → ρ → Bool) :
    (t.deleteWhere q).countWhere p ≤ t.countWhere p :=
  (List.filter_sublist.filter _).length_le

/-- Rows whose keys are all in `ids` are no more than `ids`. -/
theorem countWhere_le_length {t : Table ρ} {p : Nat → ρ → Bool} {ids : List Nat}
    (h : ∀ i r, t.get? i = some r → p i r = true → i ∈ ids) :
    t.countWhere p ≤ ids.length := by
  rw [countWhere, ← List.length_map (f := Prod.fst)]
  refine (List.subperm_of_subset (t.select_nodup p) fun i hi => ?_).length_le
  obtain ⟨⟨j, r⟩, hq, rfl⟩ := List.mem_map.mp hi
  obtain ⟨hget, hp⟩ := mem_select.mp hq
  exact h j r hget hp

/-- Weakening a condition by one row adds at most that row. -/
theorem countWhere_le_succ {t : Table ρ} {p p' : Nat → ρ → Bool} (k : Nat)
    (h : ∀ i r, t.get? i = some r → p' i r = true → p i r = true ∨ i = k) :
    t.countWhere p' ≤ t.countWhere p + 1 := by
  have hlen : t.countWhere p' ≤ ((t.select p).map Prod.fst ++ [k]).length := by
    refine countWhere_le_length fun i r hget hp' => ?_
    rcases h i r hget hp' with hp | rfl
    · exact List.mem_append_left _ (List.mem_map_of_mem (mem_select.mpr ⟨hget, hp⟩))
    · exact List.mem_append_right _ (List.mem_singleton.mpr rfl)
  simpa [countWhere] using hlen

/-- Counting class by class. -/
theorem sum_countWhere {κ : Type*} [DecidableEq κ] (t : Table ρ) (p : Nat → ρ → Bool)
    (c : ρ → κ) : ∀ {ks : List κ}, ks.Nodup →
      (ks.map fun k => t.countWhere fun i r => p i r && c r == k).sum
        = t.countWhere fun i r => p i r && ks.contains (c r)
  | [], _ => by simp [countWhere, select]
  | k :: ks, hnd => by
      rw [List.nodup_cons] at hnd
      rw [List.map_cons, List.sum_cons, sum_countWhere t p c hnd.2]
      simp only [countWhere_eq, sumWhere_eq, ← List.sum_map_add]
      refine congrArg List.sum (List.map_congr_left fun q _ => ?_)
      by_cases hk : c q.2 = k
      · simp [hk, hnd.1]
      · simp [hk]

end Table

end Conc
