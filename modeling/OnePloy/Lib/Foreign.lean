import OnePloy.Lib.Table

/-!
# Foreign keys that are one to one

`Links parent child key agree` says that every row of `child` refers, through
the nullable key `key`, to a row of `parent` that agrees with it, and that no
two refer to the same one; `Total` adds that every row of `parent` is referred
to. `Unique` is a unique index on a nullable column. Each is kept by the
operations that a transaction is made of.
-/

namespace Conc.Table

variable {α β κ : Type*}

/-- No two rows have the same key, null apart. -/
def Unique (t : Table α) (key : α → Option κ) : Prop :=
  ∀ {i j : Nat} {r r' : α} {k : κ}, t.get? i = some r → t.get? j = some r' →
    key r = some k → key r' = some k → i = j

theorem Unique.insert {t : Table α} {key : α → Option κ} {r : α} (h : t.Unique key)
    (hnew : ∀ i r' k, t.get? i = some r' → key r = some k → key r' ≠ some k) :
    (t.insert r).Unique key := by
  intro i j a b k hi hj ha hb
  rw [get?_insert] at hi hj
  split at hi
  · obtain rfl := Option.some.inj hi
    split at hj
    · omega
    · exact absurd hb (hnew j b k hj ha)
  · split at hj
    · obtain rfl := Option.some.inj hj
      exact absurd ha (hnew i a k hi hb)
    · exact h hi hj ha hb

theorem Unique.modify {t : Table α} {key : α → Option κ} {id : Nat} {f : α → α}
    (h : t.Unique key) (hkey : ∀ r, key (f r) = key r) : (t.modify id f).Unique key := by
  have hrow : ∀ i r, (t.modify id f).get? i = some r →
      ∃ r₀, t.get? i = some r₀ ∧ key r₀ = key r := by
    intro i r hr
    rw [get?_modify] at hr
    split at hr
    · obtain ⟨r₀, hr₀, rfl⟩ := Option.map_eq_some_iff.mp hr
      exact ⟨r₀, hr₀, (hkey r₀).symm⟩
    · exact ⟨r, hr, rfl⟩
  intro i j a b k hi hj ha hb
  obtain ⟨a₀, hi, hka⟩ := hrow i a hi
  obtain ⟨b₀, hj, hkb⟩ := hrow j b hj
  exact h hi hj (hka.trans ha) (hkb.trans hb)

structure Links (parent : Table α) (child : Table β) (key : β → Option Nat)
    (agree : α → β → Prop) : Prop where
  target : ∀ {k c}, child.get? k = some c →
    ∃ i p, key c = some i ∧ parent.get? i = some p ∧ agree p c
  unique : child.Unique key

/-- Every row of `parent` is referred to. -/
def Total (parent : Table α) (child : Table β) (key : β → Option Nat) : Prop :=
  ∀ {i p}, parent.get? i = some p → ∃ k c, child.get? k = some c ∧ key c = some i

section Links

variable {parent : Table α} {child : Table β} {key : β → Option Nat} {agree : α → β → Prop}

theorem links_empty (h : ∀ k, child.get? k = none) : Links parent child key agree where
  target hc := by
    rw [h] at hc
    cases hc
  unique hi := by
    rw [h] at hi
    cases hi

/-- A new row that refers to an old one to which none referred. -/
theorem Links.insert_child (h : Links parent child key agree) {c : β} {i : Nat} {p : α}
    (hkey : key c = some i) (hp : parent.get? i = some p) (hc : agree p c)
    (hfree : ∀ k c', child.get? k = some c' → key c' ≠ some i) :
    Links parent (child.insert c) key agree where
  target {k c'} hc' := by
    rw [get?_insert] at hc'
    split at hc'
    · obtain rfl := Option.some.inj hc'
      exact ⟨i, p, hkey, hp, hc⟩
    · exact h.target hc'
  unique := Unique.insert h.unique fun k c' j hc' hj => by
    obtain rfl := Option.some.inj (hkey.symm.trans hj)
    exact hfree k c' hc'

theorem Links.insert_parent (h : Links parent child key agree) (p : α) :
    Links (parent.insert p) child key agree where
  target hc := by
    obtain ⟨i, p', hkey, hp', hagree⟩ := h.target hc
    exact ⟨i, p', hkey, get?_insert_of_some _ hp', hagree⟩
  unique := h.unique

/-- A change of one row of `parent` that keeps it in agreement. -/
theorem Links.modify_parent (h : Links parent child key agree) {id : Nat} {f : α → α}
    (hagree : ∀ p c, parent.get? id = some p → agree p c → agree (f p) c) :
    Links (parent.modify id f) child key agree where
  target {k c} hc := by
    obtain ⟨i, p, hkey, hp, hpc⟩ := h.target hc
    by_cases hi : i = id
    · subst hi
      exact ⟨i, f p, hkey, get?_modify_self f hp, hagree p c hp hpc⟩
    · exact ⟨i, p, hkey, (get?_modify_ne f hi).trans hp, hpc⟩
  unique := h.unique

/-- A row of each, the new child for the new parent. -/
theorem Links.insert_both (h : Links parent child key agree) {p : α} {c : β}
    (hkey : key c = some parent.nextId) (hc : agree p c) :
    Links (parent.insert p) (child.insert c) key agree := by
  refine (h.insert_parent p).insert_child hkey (get?_insert_self _ _) hc fun k c' hc' heq => ?_
  obtain ⟨i, p', hkey', hp', -⟩ := h.target hc'
  obtain rfl := Option.some.inj (hkey'.symm.trans heq)
  rw [get?_nextId] at hp'
  cases hp'

theorem Total.insert_both (h : Total parent child key) {p : α} {c : β}
    (hkey : key c = some parent.nextId) : Total (parent.insert p) (child.insert c) key := by
  intro i p' hp'
  rw [get?_insert] at hp'
  split at hp'
  · next hi => exact ⟨child.nextId, c, get?_insert_self _ _, hi ▸ hkey⟩
  · obtain ⟨k, c', hc', hkey'⟩ := h hp'
    exact ⟨k, c', get?_insert_of_some _ hc', hkey'⟩

end Links

end Conc.Table
