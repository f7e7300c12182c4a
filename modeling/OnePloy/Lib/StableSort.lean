import Mathlib.Data.List.Sort

/-!
# What a stable sort leaves of the order

Insertion sort puts the larger behind the smaller and keeps the order of ties.
`insertionSort_pairwise` says so for any relation `S` that is wanted of the
result: it has to hold of each pair of the list in the order the sort puts them.
-/

namespace Conc

variable {α : Type*} {r : α → α → Prop} [DecidableRel r] {S : α → α → Prop}

theorem orderedInsert_pairwise [IsTrans α r] {a : α} : ∀ {l : List α}, l.Pairwise r →
    l.Pairwise S → (∀ b ∈ l, r a b → S a b) → (∀ b ∈ l, ¬ r a b → S b a) →
    (l.orderedInsert r a).Pairwise S
  | [], _, _, _, _ => List.pairwise_singleton ..
  | b :: l, hr, hS, hle, hgt => by
      rw [List.pairwise_cons] at hr
      rw [List.orderedInsert_cons]
      split
      · next hab =>
          refine List.pairwise_cons.mpr ⟨fun c hc => ?_, hS⟩
          rcases List.mem_cons.mp hc with rfl | hcl
          · exact hle c hc hab
          · exact hle c hc (trans_of r hab (hr.1 c hcl))
      · next hab =>
          rw [List.pairwise_cons] at hS
          have hrest := orderedInsert_pairwise hr.2 hS.2
            (fun c hc => hle c (List.mem_cons_of_mem _ hc))
            (fun c hc => hgt c (List.mem_cons_of_mem _ hc))
          refine List.pairwise_cons.mpr ⟨fun c hc => ?_, hrest⟩
          rcases (List.mem_orderedInsert r).mp hc with rfl | hcl
          · exact hgt b (List.mem_cons_self ..) hab
          · exact hS.1 c hcl

theorem insertionSort_pairwise [Std.Total r] [IsTrans α r] {l : List α}
    (h : l.Pairwise fun a b => (r a b → S a b) ∧ (¬ r a b → S b a)) :
    (l.insertionSort r).Pairwise S := by
  induction l with
  | nil => exact .nil
  | cons a l ih =>
      rw [List.pairwise_cons] at h
      exact orderedInsert_pairwise (List.pairwise_insertionSort r l) (ih h.2)
        (fun b hb => (h.1 b ((List.mem_insertionSort r).mp hb)).1)
        (fun b hb => (h.1 b ((List.mem_insertionSort r).mp hb)).2)

/-- What is found first in a sorted list comes before everything else that fits. -/
theorem find?_insertionSort [Std.Total r] [IsTrans α r] {l : List α} {p : α → Bool} {a : α}
    (h : (l.insertionSort r).find? p = some a) :
    a ∈ l ∧ p a = true ∧ ∀ b ∈ l, p b = true → a = b ∨ r a b := by
  have hsorted := List.pairwise_insertionSort r l
  obtain ⟨hp, before, behind, hsplit, hbefore⟩ := List.find?_eq_some_iff_append.mp h
  have hmem : a ∈ l.insertionSort r := by rw [hsplit]; simp
  refine ⟨(List.mem_insertionSort r).mp hmem, hp, fun b hb hpb => ?_⟩
  have hb := (List.mem_insertionSort r).mpr hb
  rw [hsplit] at hb hsorted
  rcases List.mem_append.mp hb with hb | hb
  · have := hbefore b hb
    rw [hpb] at this
    cases this
  rcases List.mem_cons.mp hb with rfl | hb
  · exact .inl rfl
  · exact .inr ((List.pairwise_cons.mp (List.pairwise_append.mp hsorted).2.1).1 b hb)

end Conc
