import Mathlib.Algebra.Order.Monoid.Unbundled.Basic
import Mathlib.Algebra.Order.Monoid.Defs
import Mathlib.Algebra.BigOperators.Group.List.Basic

/-!
# As many as a budget allows

Things with weights stand in a list, the most important first. `Fills` says which of
them a budget keeps: the first ones, at least one, as many as fit. `overflow` is the
loop that adds the weights up and stops where the sum exceeds the budget; what it
leaves is a front of the list, and the largest that fits behind what was already
spent.
-/

namespace Budget

/-- A filter that keeps a front and nothing behind it. -/
theorem filter_front {α : Type*} {keep : α → Bool} {l front back : List α} (h : l = front ++ back)
    (hfront : ∀ a ∈ front, keep a = true) (hback : ∀ a ∈ back, keep a = false) :
    l.filter keep = front := by
  rw [h, List.filter_append, List.filter_eq_self.mpr hfront,
    List.filter_eq_nil_iff.mpr fun a ha => by rw [hback a ha]; nofun, List.append_nil]

section Total

variable {α M : Type*} [AddCommMonoid M] (w : α → M)

def total (l : List α) : M := (l.map w).sum

@[simp] theorem total_nil : total w [] = 0 := rfl

@[simp] theorem total_cons (a : α) (l : List α) : total w (a :: l) = w a + total w l := by
  rw [total, List.map_cons, List.sum_cons, total]

theorem total_map {β : Type*} {f : β → α} (l : List β) :
    total w (l.map f) = total (fun b => w (f b)) l := by
  rw [total, total, List.map_map]
  rfl

end Total

variable {α M : Type*} [AddCommMonoid M] [LinearOrder M] (w : α → M) (cap : M)

/-- The first `k` fit, unless it is one alone, and no more do. -/
structure LargestFit (l : List α) (k : Nat) : Prop where
  one_le : 1 ≤ k
  fits : k = 1 ∨ total w (l.take k) ≤ cap
  largest : ∀ j, k < j → j ≤ l.length → cap < total w (l.take j)

def Fills (l kept : List α) : Prop := ∃ k, LargestFit w cap l k ∧ kept = l.take k

variable {w cap} {l kept kept' : List α}

theorem LargestFit.not_lt {k k' : Nat} (h : LargestFit w cap l k) (h' : LargestFit w cap l k')
    (hlt : k < k') (hk : k < l.length) : False := by
  have hone := h.one_le
  have hover : cap < total w (l.take k') := by
    rcases Nat.le_total k' l.length with hle | hle
    · exact h.largest k' hlt hle
    · rw [List.take_of_length_le hle]
      have hall := h.largest l.length hk (Nat.le_refl _)
      rwa [List.take_length] at hall
  rcases h'.fits with hk' | hfits
  · omega
  · exact absurd hfits (not_le.mpr hover)

/-- A budget keeps one front of a list and no other. -/
theorem Fills.unique (h : Fills w cap l kept) (h' : Fills w cap l kept') : kept = kept' := by
  obtain ⟨k, hk, rfl⟩ := h
  obtain ⟨k', hk', rfl⟩ := h'
  rcases Nat.lt_trichotomy k k' with hlt | rfl | hlt
  · rcases Nat.lt_or_ge k l.length with hlen | hlen
    · exact (hk.not_lt hk' hlt hlen).elim
    · rw [List.take_of_length_le hlen, List.take_of_length_le (by omega)]
  · rfl
  · rcases Nat.lt_or_ge k' l.length with hlen | hlen
    · exact (hk'.not_lt hk hlt hlen).elim
    · rw [List.take_of_length_le hlen, List.take_of_length_le (by omega)]

/-- It keeps everything where everything fits, or there is but one thing. -/
theorem fills_self_iff : Fills w cap l l ↔ l.length ≤ 1 ∨ total w l ≤ cap := by
  constructor
  · rintro ⟨k, hk, hl⟩
    have hlen : l.length ≤ k := by
      have := congrArg List.length hl
      rw [List.length_take] at this
      omega
    rcases hk.fits with rfl | hfits
    · exact .inl hlen
    · exact .inr (by rwa [← hl] at hfits)
  · intro h
    refine ⟨max l.length 1, ⟨Nat.le_max_right .., ?_, fun j hj hlen => by omega⟩, ?_⟩
    · rcases h with h | h
      · exact .inl (by omega)
      · exact .inr (by rwa [List.take_of_length_le (Nat.le_max_left ..)])
    · rw [List.take_of_length_le (Nat.le_max_left ..)]

/-- The same things under other names. -/
theorem Fills.map {β : Type*} {f : β → α} {l kept : List β}
    (h : Fills (fun b => w (f b)) cap l kept) : Fills w cap (l.map f) (kept.map f) := by
  obtain ⟨k, ⟨hone, hfits, hlargest⟩, rfl⟩ := h
  refine ⟨k, ⟨hone, ?_, fun j hj hlen => ?_⟩, List.map_take⟩
  · rwa [← List.map_take, total_map]
  · rw [← List.map_take, total_map]
    exact hlargest j hj (by rwa [List.length_map] at hlen)

/-- And back, for a front of the list. -/
theorem Fills.of_map {β : Type*} {f : β → α} {l kept : List β} (hfront : kept <+: l)
    (h : Fills w cap (l.map f) (kept.map f)) : Fills (fun b => w (f b)) cap l kept := by
  obtain ⟨k, ⟨hone, hfits, hlargest⟩, hkept⟩ := h
  have htake : kept = l.take k := by
    have hlen := congrArg List.length hkept
    rw [List.length_map, List.length_take, List.length_map] at hlen
    rw [List.prefix_iff_eq_take.mp hfront, hlen]
    rcases Nat.le_total k l.length with hle | hle
    · rw [Nat.min_eq_left hle]
    · rw [Nat.min_eq_right hle, List.take_length, List.take_of_length_le hle]
  refine ⟨k, ⟨hone, ?_, fun j hj hlen => ?_⟩, htake⟩
  · rwa [← List.map_take, total_map] at hfits
  · have := hlargest j hj (by rwa [List.length_map])
    rwa [← List.map_take, total_map] at this

/-! ## Adding up -/

variable (w cap)

/-- What begins where the weights, with those spent before, exceed the budget. -/
def overflow (spent : M) : List α → List α
  | [] => []
  | a :: l => if cap < spent + w a then a :: l else overflow (spent + w a) l

variable {w cap} [IsOrderedAddMonoid M]

theorem total_nonneg (hw : ∀ a, 0 ≤ w a) (l : List α) : 0 ≤ total w l := by
  induction l with
  | nil => exact le_refl 0
  | cons a l ih =>
      rw [total_cons]
      exact add_nonneg (hw a) ih

/-- The loop stops as late as the budget allows. -/
theorem exists_overflow (hw : ∀ a, 0 ≤ w a) (cap spent : M) (l : List α) :
    ∃ k, overflow w cap spent l = l.drop k ∧ (k = 0 ∨ spent + total w (l.take k) ≤ cap) ∧
      ∀ j, k < j → j ≤ l.length → cap < spent + total w (l.take j) := by
  induction l generalizing spent with
  | nil => exact ⟨0, rfl, .inl rfl, fun j hj hlen => absurd hlen (Nat.not_le.mpr hj)⟩
  | cons a l ih =>
      rw [overflow]
      split
      · next hover =>
          refine ⟨0, rfl, .inl rfl, fun j hj _ => ?_⟩
          obtain ⟨j, rfl⟩ := Nat.exists_eq_succ_of_ne_zero (Nat.ne_of_gt hj)
          rw [List.take_succ_cons, total_cons, ← add_assoc]
          exact lt_of_lt_of_le hover (le_add_of_nonneg_right (total_nonneg hw _))
      · next hfits =>
          obtain ⟨k, hdrop, hk, hlargest⟩ := ih (spent + w a)
          refine ⟨k + 1, hdrop, .inr ?_, fun j hj hlen => ?_⟩
          · rw [List.take_succ_cons, total_cons, ← add_assoc]
            rcases hk with rfl | hk
            · rw [List.take_zero, total_nil, add_zero]
              exact not_lt.mp hfits
            · exact hk
          · obtain ⟨j, rfl⟩ := Nat.exists_eq_succ_of_ne_zero (Nat.ne_of_gt (Nat.zero_lt_of_lt hj))
            rw [List.take_succ_cons, total_cons, ← add_assoc]
            exact hlargest j (Nat.lt_of_succ_lt_succ hj) (Nat.le_of_succ_le_succ hlen)

end Budget
