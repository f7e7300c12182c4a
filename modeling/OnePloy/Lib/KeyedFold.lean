import OnePloy.Lib.Table

/-!
# Loops over keyed lists

What a loop does to one key. If each turn touches only what belongs to its own
key, then a loop over a list without repeated keys does to key `k` what `k`'s
turn does to it, or nothing (`foldl_of_mem`, `foldl_of_not_mem`).

Keyset pagination: a list sorted by key is gone through in chunks, the next one
being the first rows behind the last key of the chunk before
(`filter_lt_getLast`).
-/

namespace Conc

variable {S X K P : Type*}

/-! ## One key -/

section Fold

variable {f : S → X → S} {key : X → K} {view : S → P} {k : K}

/-- No turn changes what is looked at. -/
theorem foldl_unchanged {xs : List X} (h : ∀ x ∈ xs, ∀ s, view (f s x) = view s) (s : S) :
    view (xs.foldl f s) = view s := by
  induction xs generalizing s with
  | nil => rfl
  | cons x xs ih =>
      rw [List.foldl_cons, ih fun y hy => h y (List.mem_cons_of_mem _ hy),
        h x (List.mem_cons_self ..)]

theorem foldl_of_not_mem (hother : ∀ s x, key x ≠ k → view (f s x) = view s) {xs : List X}
    (hk : ∀ x ∈ xs, key x ≠ k) (s : S) : view (xs.foldl f s) = view s :=
  foldl_unchanged (fun x hx s => hother s x (hk x hx)) s

theorem foldl_of_mem (hother : ∀ s x, key x ≠ k → view (f s x) = view s) {x : X} {g : P → P}
    (hself : ∀ s, view (f s x) = g (view s)) (hx : key x = k) {xs : List X}
    (hnodup : (xs.map key).Nodup) (hmem : x ∈ xs) (s : S) :
    view (xs.foldl f s) = g (view s) := by
  induction xs generalizing s with
  | nil => cases hmem
  | cons y xs ih =>
      rw [List.map_cons, List.nodup_cons] at hnodup
      rw [List.foldl_cons]
      rcases List.mem_cons.mp hmem with rfl | hmem
      · have hrest : ∀ z ∈ xs, key z ≠ k := by
          rintro z hz rfl
          exact hnodup.1 (hx ▸ List.mem_map_of_mem hz)
        rw [foldl_of_not_mem hother hrest, hself]
      · have hy : key y ≠ k := by
          rintro rfl
          exact hnodup.1 (hx ▸ List.mem_map_of_mem hmem)
        rw [ih hnodup.2 hmem, hother s y hy]

end Fold

/-- A loop over indices that reads a list, past its end if need be. -/
theorem foldl_range_getElem? (f : P → X → P) {xs : List X} {n : Nat} (h : xs.length ≤ n) (p : P) :
    (List.range n).foldl (fun p i => (xs[i]?).elim p (f p)) p = xs.foldl f p := by
  induction xs generalizing n p with
  | nil =>
      induction List.range n with
      | nil => rfl
      | cons i is ih => exact ih
  | cons x xs ih =>
      obtain ⟨m, rfl⟩ : ∃ m, n = m + 1 := ⟨n - 1, by rw [List.length_cons] at h; omega⟩
      have hlen : xs.length ≤ m := by rw [List.length_cons] at h; omega
      rw [List.range_succ_eq_map, List.foldl_cons, List.foldl_map]
      simp only [List.getElem?_cons_zero, List.getElem?_cons_succ, Option.elim_some]
      rw [ih hlen, List.foldl_cons]

/-! ## Chunks -/

theorem le_getLast {ρ : Type*} {rows : List (Nat × ρ)}
    (hsorted : (rows.map Prod.fst).Pairwise (· < ·)) {q : Nat × ρ}
    (hq : rows.getLast? = some q) : ∀ p ∈ rows, p.1 ≤ q.1 := by
  obtain ⟨init, rfl⟩ := List.getLast?_eq_some_iff.mp hq
  rw [List.pairwise_map, List.pairwise_append] at hsorted
  intro p hp
  rcases List.mem_append.mp hp with hp | hp
  · exact Nat.le_of_lt (hsorted.2.2 p hp q (List.mem_singleton_self q))
  · rw [List.mem_singleton.mp hp]

/-- Behind the last key of the first `m` rows come the rows after them. -/
theorem filter_lt_getLast {ρ : Type*} {rows : List (Nat × ρ)}
    (hsorted : (rows.map Prod.fst).Pairwise (· < ·)) {m : Nat} {q : Nat × ρ}
    (hq : (rows.take m).getLast? = some q) :
    rows.filter (fun p => q.1 < p.1) = rows.drop m := by
  have hle := le_getLast (hsorted.sublist ((List.take_sublist m rows).map _)) hq
  have hpast : (rows.take m).filter (fun p => q.1 < p.1) = [] := by
    rw [List.filter_eq_nil_iff]
    intro p hp
    rw [decide_eq_true_eq, Nat.not_lt]
    exact hle p hp
  rw [List.pairwise_map, ← List.take_append_drop m rows, List.pairwise_append] at hsorted
  have hahead : (rows.drop m).filter (fun p => q.1 < p.1) = rows.drop m := by
    rw [List.filter_eq_self]
    intro p hp
    rw [decide_eq_true_eq]
    exact hsorted.2.2 q (List.mem_of_getLast? hq) p hp
  calc rows.filter (fun p => q.1 < p.1)
      = (rows.take m ++ rows.drop m).filter (fun p => q.1 < p.1) := by rw [List.take_append_drop]
    _ = rows.drop m := by rw [List.filter_append, hpast, hahead, List.nil_append]

end Conc
