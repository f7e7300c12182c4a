import Mathlib.Data.List.Nodup

/-!
# Pairwise elimination

A list of items of which each one, as long as nothing has marked it, marks what it
covers. An item acts if nothing that acts before it covers it (`acts_iff`), and is
marked if something else that acts covers it (`mem_marked`); no relation between
the coverings is needed. What stands at the end covers nothing else that stands
(`Stands.not_covers`), and from what acts one can climb along coverings to what
stands (`Acts.climb`).
-/

namespace Elimination

variable {α : Type*} (covers : α → α → Bool) (xs : List α)

/-! ## The loops -/

/-- A turn of the inner loop: item `i` marks item `j`. -/
def markOne (i : Nat) (marks : List Nat) (j : Nat) : List Nat :=
  if i = j ∨ j ∈ marks then marks
  else
    match xs[i]?, xs[j]? with
    | some x, some y => if covers x y then j :: marks else marks
    | _, _ => marks

/-- A turn of the outer loop. -/
def markBy (marks : List Nat) (i : Nat) : List Nat :=
  if i ∈ marks then marks else (List.range xs.length).foldl (markOne covers xs i) marks

/-- The marked positions after the first turns. -/
def marksAfter (n : Nat) : List Nat := (List.range n).foldl (markBy covers xs) []

def marked : List Nat := marksAfter covers xs xs.length

def remaining : List α :=
  let marks := marked covers xs
  (xs.zipIdx.filter fun e => decide (e.2 ∉ marks)).map Prod.fst

/-! ## What is marked -/

/-- Item `i` covers another item `j`. -/
def Covers (i j : Nat) : Prop :=
  i ≠ j ∧ ∃ x y, xs[i]? = some x ∧ xs[j]? = some y ∧ covers x y = true

/-- Nothing has marked the item when its turn comes. -/
def Acts (i : Nat) : Prop := i ∉ marksAfter covers xs i

/-- Nothing has marked the item in the end. -/
def Stands (i : Nat) : Prop := i < xs.length ∧ i ∉ marked covers xs

variable {covers} {xs}

theorem Covers.lt {i j : Nat} (h : Covers covers xs i j) : i < xs.length ∧ j < xs.length := by
  obtain ⟨-, x, y, hx, hy, -⟩ := h
  exact ⟨(List.getElem?_eq_some_iff.mp hx).1, (List.getElem?_eq_some_iff.mp hy).1⟩

theorem mem_markOne {i j k : Nat} {marks : List Nat} :
    j ∈ markOne covers xs i marks k ↔ j ∈ marks ∨ (j = k ∧ Covers covers xs i k) := by
  unfold markOne
  by_cases hskip : i = k ∨ k ∈ marks
  · rw [if_pos hskip]
    refine ⟨.inl, fun h => h.elim id ?_⟩
    rintro ⟨rfl, hc⟩
    exact hskip.resolve_left hc.1
  · rw [if_neg hskip]
    rw [not_or] at hskip
    cases hx : xs[i]? with
    | none => simp [Covers, hx]
    | some x =>
        cases hy : xs[k]? with
        | none => simp [Covers, hx, hy]
        | some y =>
            cases hc : covers x y with
            | false => simp [Covers, hx, hy, hc]
            | true => simp [Covers, hx, hy, hc, hskip.1, or_comm]

theorem mem_foldl_markOne {i j : Nat} {ks marks : List Nat} :
    j ∈ ks.foldl (markOne covers xs i) marks ↔
      j ∈ marks ∨ (j ∈ ks ∧ Covers covers xs i j) := by
  induction ks generalizing marks with
  | nil => simp
  | cons k ks ih =>
      rw [List.foldl_cons, ih, mem_markOne, List.mem_cons]
      constructor
      · rintro ((h | ⟨rfl, hc⟩) | ⟨hj, hc⟩)
        · exact .inl h
        · exact .inr ⟨.inl rfl, hc⟩
        · exact .inr ⟨.inr hj, hc⟩
      · rintro (h | ⟨rfl | hj, hc⟩)
        · exact .inl (.inl h)
        · exact .inl (.inr ⟨rfl, hc⟩)
        · exact .inr ⟨hj, hc⟩

theorem mem_markBy {i j : Nat} {marks : List Nat} :
    j ∈ markBy covers xs marks i ↔ j ∈ marks ∨ (i ∉ marks ∧ Covers covers xs i j) := by
  unfold markBy
  by_cases hi : i ∈ marks
  · simp [hi]
  · rw [if_neg hi, mem_foldl_markOne, List.mem_range]
    exact or_congr_right ⟨fun h => ⟨hi, h.2⟩, fun h => ⟨h.2.lt.2, h.2⟩⟩

theorem mem_marksAfter {n j : Nat} :
    j ∈ marksAfter covers xs n ↔ ∃ i < n, Acts covers xs i ∧ Covers covers xs i j := by
  induction n with
  | zero => simp [marksAfter]
  | succ n ih =>
      have hturn : marksAfter covers xs (n + 1) = markBy covers xs (marksAfter covers xs n) n := by
        rw [marksAfter, List.range_succ, List.foldl_append]
        rfl
      rw [hturn, mem_markBy, ih]
      constructor
      · rintro (⟨i, hi, h⟩ | ⟨hacts, hc⟩)
        · exact ⟨i, by omega, h⟩
        · exact ⟨n, by omega, hacts, hc⟩
      · rintro ⟨i, hi, hacts, hc⟩
        rcases Nat.lt_or_eq_of_le (Nat.le_of_lt_succ hi) with hlt | rfl
        · exact .inl ⟨i, hlt, hacts, hc⟩
        · exact .inr ⟨hacts, hc⟩

/-- An item acts unless something that acts before it covers it. -/
theorem acts_iff {j : Nat} :
    Acts covers xs j ↔ ∀ i < j, Acts covers xs i → ¬ Covers covers xs i j := by
  rw [Acts, mem_marksAfter]
  simp only [not_exists, not_and]

theorem mem_marked {j : Nat} :
    j ∈ marked covers xs ↔ ∃ i, Acts covers xs i ∧ Covers covers xs i j := by
  rw [marked, mem_marksAfter]
  constructor
  · rintro ⟨i, -, h⟩
    exact ⟨i, h⟩
  · rintro ⟨i, hacts, hc⟩
    exact ⟨i, hc.lt.1, hacts, hc⟩

theorem stands_iff {j : Nat} :
    Stands covers xs j ↔
      j < xs.length ∧ ∀ i, Acts covers xs i → ¬ Covers covers xs i j := by
  rw [Stands, mem_marked]
  simp only [not_exists, not_and]

theorem Stands.acts {j : Nat} (h : Stands covers xs j) : Acts covers xs j :=
  acts_iff.mpr fun i _ => (stands_iff.mp h).2 i

theorem Stands.not_covers {i j : Nat} (hi : Stands covers xs i) (hj : Stands covers xs j) :
    ¬ Covers covers xs i j :=
  (stands_iff.mp hj).2 i hi.acts

/-- What passes from an item that acts to a later one that covers it holds of
something that stands. -/
theorem Acts.climb {P : Nat → Prop}
    (hstep : ∀ i j, i < j → Acts covers xs i → Acts covers xs j → Covers covers xs j i →
      P i → P j) {i : Nat} (hi : i < xs.length) (hacts : Acts covers xs i) (hP : P i) :
    ∃ s, Stands covers xs s ∧ P s := by
  induction hm : xs.length - i using Nat.strongRecOn generalizing i with
  | ind m ih =>
      by_cases hstands : Stands covers xs i
      · exact ⟨i, hstands, hP⟩
      · have hsome : ∃ j, Acts covers xs j ∧ Covers covers xs j i := by
          by_contra hnone
          exact hstands (stands_iff.mpr ⟨hi, fun j ha hc => hnone ⟨j, ha, hc⟩⟩)
        obtain ⟨j, hj, hc⟩ := hsome
        have hlt : i < j := by
          rcases Nat.lt_trichotomy i j with hlt | heq | hgt
          · exact hlt
          · exact absurd heq.symm hc.1
          · exact absurd hc (acts_iff.mp hacts j hgt hj)
        have hlen := hc.lt.1
        exact ih (xs.length - j) (by omega) hlen hj (hstep i j hlt hacts hj hc hP) rfl

/-- An item that does not act is covered by one that does. -/
theorem exists_of_not_acts {j : Nat} (h : ¬ Acts covers xs j) :
    ∃ i < j, Acts covers xs i ∧ Covers covers xs i j := by
  rw [acts_iff] at h
  push Not at h
  exact h

/-! ## What remains -/

theorem mem_remaining {x : α} :
    x ∈ remaining covers xs ↔ ∃ i, Stands covers xs i ∧ xs[i]? = some x := by
  simp only [remaining, List.mem_map, List.mem_filter, Prod.exists, List.mem_zipIdx_iff_getElem?,
    Stands, decide_eq_true_eq]
  constructor
  · rintro ⟨y, i, ⟨hy, hmarked⟩, rfl⟩
    exact ⟨i, ⟨(List.getElem?_eq_some_iff.mp hy).1, hmarked⟩, hy⟩
  · rintro ⟨i, ⟨-, hmarked⟩, hx⟩
    exact ⟨x, i, ⟨hx, hmarked⟩, rfl⟩

theorem remaining_sublist : (remaining covers xs).Sublist xs := by
  have h := (List.filter_sublist (l := xs.zipIdx)
    (p := fun e => decide (e.2 ∉ marked covers xs))).map Prod.fst
  rwa [List.zipIdx_map_fst] at h

/-- What holds between the items that remain holds between those that stand. -/
theorem remaining_pairwise_iff {R : α → α → Prop} :
    (remaining covers xs).Pairwise R ↔
      ∀ i j, i < j → Stands covers xs i → Stands covers xs j →
        ∀ x y, xs[i]? = some x → xs[j]? = some y → R x y := by
  rw [remaining, List.pairwise_map, List.pairwise_filter, List.pairwise_iff_getElem]
  simp only [List.getElem_zipIdx, List.length_zipIdx, decide_eq_true_eq, Nat.zero_add]
  constructor
  · intro h i j hlt hi hj x y hx hy
    obtain ⟨_, rfl⟩ := List.getElem?_eq_some_iff.mp hx
    obtain ⟨_, rfl⟩ := List.getElem?_eq_some_iff.mp hy
    exact h i j hi.1 hj.1 hlt hi.2 hj.2
  · intro h i j hi hj hlt hmi hmj
    exact h i j hlt ⟨hi, hmi⟩ ⟨hj, hmj⟩ _ _ (List.getElem?_eq_getElem hi)
      (List.getElem?_eq_getElem hj)

theorem remaining_pairwise :
    (remaining covers xs).Pairwise fun x y => covers x y = false ∧ covers y x = false := by
  refine remaining_pairwise_iff.mpr fun i j hlt hi hj x y hx hy => ⟨?_, ?_⟩
  · by_contra hc
    exact hi.not_covers hj ⟨by omega, x, y, hx, hy, by simpa using hc⟩
  · by_contra hc
    exact hj.not_covers hi ⟨by omega, y, x, hy, hx, by simpa using hc⟩

/-- Where nothing covers anything else, everything remains. -/
theorem remaining_eq_self (h : xs.Pairwise fun x y => covers x y = false ∧ covers y x = false) :
    remaining covers xs = xs := by
  have hnone : ∀ j, j ∉ marked covers xs := by
    intro j
    rw [mem_marked]
    rintro ⟨i, -, hne, x, y, hx, hy, hc⟩
    obtain ⟨hi, rfl⟩ := List.getElem?_eq_some_iff.mp hx
    obtain ⟨hj, rfl⟩ := List.getElem?_eq_some_iff.mp hy
    rcases Nat.lt_or_gt_of_ne hne with hlt | hgt
    · exact absurd hc (by rw [(List.pairwise_iff_getElem.mp h i j hi hj hlt).1]; nofun)
    · exact absurd hc (by rw [(List.pairwise_iff_getElem.mp h j i hj hi hgt).2]; nofun)
  rw [remaining, List.filter_eq_self.mpr fun e _ => decide_eq_true (hnone e.2), List.zipIdx_map_fst]

theorem remaining_remaining :
    remaining covers (remaining covers xs) = remaining covers xs :=
  remaining_eq_self remaining_pairwise

end Elimination
