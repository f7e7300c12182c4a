import Mathlib.Algebra.Order.Floor.Div
import Mathlib.Tactic.Linarith

/-!
# Pages of a list

A page is a window of a list at a multiple of the page size. The first pages, one
after the other, are the beginning of the list (`flatMap_page`), and `lastPage` is
the number at which they are the whole list, with none before it that is not full.
-/

namespace Pages

variable {α β : Type}

/-- `n` elements of the list, after the first `offset`. -/
def window (l : List α) (offset n : Nat) : List α := (l.drop offset).take n

/-- The page that `k` pages of size `n` precede. -/
def page (n : Nat) (l : List α) (k : Nat) : List α := window l (k * n) n

/-- No list is without a first page. -/
def lastPage (n count : Nat) : Nat := max 1 (count ⌈/⌉ n)

@[simp] theorem window_zero (l : List α) (offset : Nat) : window l offset 0 = [] := rfl

theorem length_window (l : List α) (offset n : Nat) :
    (window l offset n).length = min n (l.length - offset) := by
  rw [window, List.length_take, List.length_drop]

theorem map_window (f : α → β) (l : List α) (offset n : Nat) :
    (window l offset n).map f = window (l.map f) offset n := by
  rw [window, window, List.map_take, List.map_drop]

/-- The elements of a window keep the places that they have in the list. -/
theorem mapIdx_window (f : Nat → α → β) (l : List α) (offset n : Nat) :
    ((window l offset n).mapIdx fun i a => f (offset + i) a) = window (l.mapIdx f) offset n := by
  refine List.ext_getElem? fun i => ?_
  simp only [window, List.getElem?_mapIdx, List.getElem?_take, List.getElem?_drop]
  split
  · rfl
  · rfl

/-- A window that begins after the first of two lists. -/
theorem window_append_right {l₁ : List α} (l₂ : List α) {offset : Nat} (n : Nat)
    (h : l₁.length ≤ offset) : window (l₁ ++ l₂) offset n = window l₂ (offset - l₁.length) n := by
  rw [window, window, List.drop_append, List.drop_eq_nil_of_le h, List.nil_append]

/-- A window that begins within the first of two lists goes on at the beginning of the
second. -/
theorem window_append_left {l₁ : List α} (l₂ : List α) {offset : Nat} (n : Nat)
    (h : offset ≤ l₁.length) :
    window (l₁ ++ l₂) offset n =
      window l₁ offset n ++ window l₂ 0 (n - (l₁.length - offset)) := by
  rw [window, window, window, List.drop_append_of_le_length h, List.take_append,
    List.length_drop, List.drop_zero]

/-- More than the list has is not taken. -/
theorem window_min (l : List α) (offset n : Nat) :
    window l offset (min n (l.length - offset)) = window l offset n := by
  rw [window, ← List.length_drop]
  exact List.take_eq_take_min.symm

theorem flatMap_page (n : Nat) (l : List α) (m : Nat) :
    (List.range m).flatMap (page n l) = l.take (m * n) := by
  induction m with
  | zero => rw [Nat.zero_mul]; rfl
  | succ m ih =>
      rw [List.range_succ, List.flatMap_append, ih, List.flatMap_singleton, page, window,
        ← List.take_add, Nat.succ_mul]

theorem length_page {n : Nat} {l : List α} {k : Nat} (h : (k + 1) * n ≤ l.length) :
    (page n l k).length = n := by
  rw [page, length_window]
  rw [Nat.succ_mul] at h
  omega

variable {n count : Nat}

theorem one_le_lastPage (n count : Nat) : 1 ≤ lastPage n count := Nat.le_max_left ..

theorem count_le_lastPage (hn : 0 < n) : count ≤ lastPage n count * n :=
  calc count ≤ n * (count ⌈/⌉ n) := (ceilDiv_le_iff_le_mul hn).1 le_rfl
    _ ≤ n * lastPage n count := Nat.mul_le_mul_left n (Nat.le_max_right ..)
    _ = lastPage n count * n := Nat.mul_comm ..

/-- The pages before the last do not reach the end of the list. -/
theorem full_of_lt_lastPage (hn : 0 < n) {k : Nat} (h : k + 1 < lastPage n count) :
    (k + 1) * n ≤ count := by
  have hceil : k + 1 < count ⌈/⌉ n := by
    unfold lastPage at h
    omega
  by_contra hlt
  have hle : count ⌈/⌉ n ≤ k + 1 := (ceilDiv_le_iff_le_mul hn).2 (by linarith)
  omega

/-- All pages together are the list. -/
theorem flatMap_pages (hn : 0 < n) (l : List α) :
    (List.range (lastPage n l.length)).flatMap (page n l) = l := by
  rw [flatMap_page, List.take_of_length_le (count_le_lastPage hn)]

end Pages
