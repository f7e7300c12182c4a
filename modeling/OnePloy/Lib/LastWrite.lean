import Mathlib.Data.List.Perm.Basic

/-!
# The last write wins

Writers come one after another and some of them set a value; what is there in the
end is what the last of them has set. Changing the order of the writers makes no
difference exactly where all of them set the same value (`lastWrite_perm_iff`).
-/

namespace Conc

variable {W V : Type*}

/-- What is there after the writers, `v` at first. -/
def lastWrite (sets : W → Option V) (ws : List W) (v : V) : V :=
  ws.foldl (fun v w => (sets w).getD v) v

variable {sets : W → Option V} {ws : List W} {v : V}

@[simp] theorem lastWrite_nil : lastWrite sets [] v = v := rfl

@[simp] theorem lastWrite_cons (w : W) :
    lastWrite sets (w :: ws) v = lastWrite sets ws ((sets w).getD v) := rfl

theorem lastWrite_append_singleton (w : W) :
    lastWrite sets (ws ++ [w]) v = (sets w).getD (lastWrite sets ws v) := by
  rw [lastWrite, List.foldl_append]
  rfl

theorem lastWrite_of_none (h : ∀ w ∈ ws, sets w = none) : lastWrite sets ws v = v := by
  induction ws with
  | nil => rfl
  | cons w ws ih =>
      rw [lastWrite_cons, h w (List.mem_cons_self ..), Option.getD_none]
      exact ih fun w' hw' => h w' (List.mem_cons_of_mem _ hw')

/-- What is there was there before, or some writer has set it. -/
theorem lastWrite_mem :
    lastWrite sets ws v = v ∨ ∃ w ∈ ws, sets w = some (lastWrite sets ws v) := by
  induction ws generalizing v with
  | nil => exact .inl rfl
  | cons w ws ih =>
      rw [lastWrite_cons]
      rcases ih (v := (sets w).getD v) with h | ⟨w', hw', h⟩
      · cases hw : sets w with
        | none =>
            rw [hw, Option.getD_none] at h
            exact .inl h
        | some u =>
            rw [hw, Option.getD_some] at h
            exact .inr ⟨w, List.mem_cons_self .., by rw [Option.getD_some, h, hw]⟩
      · exact .inr ⟨w', List.mem_cons_of_mem _ hw', h⟩

/-- Where there is a writer it is no matter what was there before. -/
theorem lastWrite_of_mem {w : W} {u : V} (hw : w ∈ ws) (hset : sets w = some u) :
    ∃ w' ∈ ws, sets w' = some (lastWrite sets ws v) := by
  induction ws generalizing v with
  | nil => cases hw
  | cons x ws ih =>
      rw [lastWrite_cons]
      rcases List.mem_cons.mp hw with rfl | hw
      · rw [hset, Option.getD_some]
        rcases @lastWrite_mem _ _ sets ws u with h | ⟨w', hw', h⟩
        · exact ⟨w, List.mem_cons_self .., by rw [h, hset]⟩
        · exact ⟨w', List.mem_cons_of_mem _ hw', h⟩
      · obtain ⟨w', hw', h⟩ := ih (v := (sets x).getD v) hw
        exact ⟨w', List.mem_cons_of_mem _ hw', h⟩

theorem lastWrite_append (front back : List W) :
    lastWrite sets (front ++ back) v = lastWrite sets back (lastWrite sets front v) :=
  List.foldl_append

/-- Where there is a writer there is one after which no other comes. -/
theorem lastWrite_split (h : ∃ w ∈ ws, sets w ≠ none) :
    ∃ front w back, ws = front ++ w :: back ∧ sets w = some (lastWrite sets ws v) ∧
      ∀ x ∈ back, sets x = none := by
  induction ws generalizing v with
  | nil =>
      obtain ⟨w, hw, -⟩ := h
      cases hw
  | cons x ws ih =>
      by_cases hlater : ∃ w ∈ ws, sets w ≠ none
      · obtain ⟨front, w, back, rfl, hset, hback⟩ := ih hlater (v := (sets x).getD v)
        exact ⟨x :: front, w, back, rfl, hset, hback⟩
      · have hnone : ∀ y ∈ ws, sets y = none :=
          fun y hy => by_contra fun hne => hlater ⟨y, hy, hne⟩
        obtain ⟨w, hw, hne⟩ := h
        obtain rfl : w = x := by
          rcases List.mem_cons.mp hw with rfl | hw
          · rfl
          · exact absurd (hnone w hw) hne
        obtain ⟨u, hu⟩ := Option.ne_none_iff_exists'.mp hne
        refine ⟨[], w, ws, rfl, ?_, hnone⟩
        rw [lastWrite_cons, lastWrite_of_none hnone, hu, Option.getD_some]

/-- Any writer may come last. -/
theorem exists_perm_lastWrite {w : W} {u : V} (hw : w ∈ ws) (hset : sets w = some u) :
    ∃ ws', ws.Perm ws' ∧ lastWrite sets ws' v = u := by
  obtain ⟨front, back, rfl⟩ := List.append_of_mem hw
  refine ⟨front ++ back ++ [w], ?_, ?_⟩
  · rw [List.append_assoc]
    exact (@List.perm_append_comm _ [w] back).append_left front
  · rw [lastWrite_append_singleton, hset, Option.getD_some]

/-- The order does not matter exactly where all writers set the same. -/
theorem lastWrite_perm_iff :
    (∀ ws', ws.Perm ws' → lastWrite sets ws' v = lastWrite sets ws v) ↔
      ∀ w ∈ ws, ∀ w' ∈ ws, ∀ u u', sets w = some u → sets w' = some u' → u = u' := by
  constructor
  · intro h w hw w' hw' u u' hu hu'
    obtain ⟨l, hperm, hl⟩ := exists_perm_lastWrite (v := v) hw hu
    obtain ⟨l', hperm', hl'⟩ := exists_perm_lastWrite (v := v) hw' hu'
    rw [← hl, ← hl', h l hperm, h l' hperm']
  · intro h ws' hperm
    by_cases hnone : ∀ w ∈ ws, sets w = none
    · rw [lastWrite_of_none hnone, lastWrite_of_none fun w hw => hnone w (hperm.mem_iff.mpr hw)]
    · push Not at hnone
      obtain ⟨w, hw, hne⟩ := hnone
      obtain ⟨u, hu⟩ := Option.ne_none_iff_exists'.mp hne
      obtain ⟨x, hx, hset⟩ := lastWrite_of_mem (v := v) hw hu
      obtain ⟨x', hx', hset'⟩ := lastWrite_of_mem (v := v) (hperm.mem_iff.mp hw) hu
      exact h x' (hperm.mem_iff.mpr hx') x hx _ _ hset' hset

end Conc
